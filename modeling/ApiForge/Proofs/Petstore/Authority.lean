import ApiForge.Proofs.Auth.Credential
import ApiForge.Proofs.Petstore.Routing
import ApiForge.Proofs.Petstore.Shelf
/-!
Who may change the pet store.

# What a request shows

Credentials are read out of headers by code that cuts and trims; `ShowsKey`
and `MayWrite` say what a header has to look like for that code to find a key
or a token that counts.

# Who is let through

The accounts keep no state, so a requirement is met or not met on the request
alone, and the store is as it was when the handler begins (`evaluate_accounts`).

# Who changes the store

Only two handlers write, each only when it answers that it did
(`createPet_cases`, `deletePet_cases`).
-/

namespace ApiForge.Petstore

open ApiForge.Auth (Credential Outcome Scheme afterWord?_eq_some_iff
  authorization?_eq_some_iff bearer? evaluate evaluateClauses
  nonEmpty_eq_some_iff satisfy tryScheme)
open ApiForge.Calendar (Timestamp)
open ApiForge.Http (Header Problem Request)
open ApiForge.Service (Call Route Router)

-- ================================================ statement vocabulary

/-- A text is that of the first header of a name in lower case. -/
def FirstHeader (request : Request) (name text : String) : Prop :=
  ∃ h, request.headers.find? (·.name == name) = some h ∧ h.text? = some text

/-- The first key header of a request holds one of the keys, not the empty
one. -/
def ShowsKey (accounts : Accounts) (request : Request) : Prop :=
  ∃ key, FirstHeader request "x-api-key" key ∧ key ≠ "" ∧ key ∈ accounts.keys

/-- The first authorization header of a request is the word for tokens, in any
case, and a token behind it. -/
def ShowsToken (request : Request) (token : String) : Prop :=
  ∃ text word rest, FirstHeader request "authorization" text
    ∧ Text.trim text = word ++ " " ++ rest ∧ ' ' ∉ word.toList
    ∧ Scheme.sameWord word "bearer" = true
    ∧ token = Text.trim rest ∧ token ≠ ""

/-- A request shows a token of the accounts that may change pets. -/
def MayWrite (accounts : Accounts) (request : Request) : Prop :=
  ∃ token granted, ShowsToken request token
    ∧ accounts.tokens.get? token = some granted ∧ "pets:write" ∈ granted

-- ================================================= what a request shows

variable {request : Request} {accounts : Accounts}

/-- The text of a header is that of the first of its name. -/
theorem headerText?_eq_some_iff {name lower text : String}
    (hname : Header.nameOf? name = some lower) :
    request.headerText? name = some text ↔ FirstHeader request lower text := by
  unfold FirstHeader
  rw [Request.headerText?_eq hname, Option.bind_eq_some_iff]

/-- A token is found where one is shown. -/
theorem bearer?_eq_some_iff {credential : Credential} :
    bearer? request = some credential
      ↔ ∃ token, ShowsToken request token ∧ credential = .bearer token := by
  unfold bearer?
  rw [Option.bind_eq_bind, Option.bind_eq_some_iff]
  constructor
  · rintro ⟨value, hvalue, h⟩
    obtain ⟨token, htoken, h⟩ := Option.bind_eq_some_iff.1 h
    cases h
    obtain ⟨text, hfirst, rfl, -⟩ := authorization?_eq_some_iff.1 hvalue
    obtain ⟨word, rest, h⟩ := afterWord?_eq_some_iff.1 htoken
    exact ⟨token, ⟨text, word, rest, hfirst, h⟩, rfl⟩
  · rintro ⟨token, ⟨text, word, rest, hfirst, htext, h⟩, rfl⟩
    have hne : Text.trim text ≠ "" := by
      rw [htext]
      intro h
      have hlength := congrArg String.length h
      simp at hlength
    refine ⟨_, authorization?_eq_some_iff.2 ⟨text, hfirst, rfl, hne⟩, ?_⟩
    rw [afterWord?_eq_some_iff.2 ⟨word, rest, htext, h⟩]
    rfl

-- ================================================== who is let through

/-- The accounts accept the credential that a request shows for an entry of a
clause. -/
def Opens (accounts : Accounts) (request : Request)
    (entry : String × List String) : Prop :=
  ∃ scheme credential principal, schemes.get? entry.1 = some scheme
    ∧ scheme.credential? request = some credential
    ∧ accounts.authenticate entry.1 credential entry.2 = .ok principal

/-- The accounts let a request through where a requirement stands. -/
def Admits (accounts : Accounts) (request : Request) : Requirement → Prop
  | .anonymous => True
  | .clauses cs => ∃ clause ∈ cs, ∀ entry ∈ clause, Opens accounts request entry

/-- Trying an entry leaves the store, and succeeds when the entry opens. -/
theorem tryScheme_accounts (entry : String × List String) (s : Store) :
    (∃ who, tryScheme schemes accounts.authenticator request entry.1 entry.2 s
          = (.ok who, s) ∧ Opens accounts request entry)
      ∨ ∃ e, tryScheme schemes accounts.authenticator request entry.1 entry.2 s
          = (.error e, s) ∧ ¬ Opens accounts request entry := by
  unfold tryScheme
  -- no scheme, no credential, or an answer of the accounts
  cases hscheme : schemes.get? entry.1 with
  | none =>
      refine Or.inr ⟨_, rfl, ?_⟩
      rintro ⟨_, _, _, h, -⟩
      rw [hscheme] at h
      cases h
  | some scheme =>
      cases hcredential : scheme.credential? request with
      | none =>
          refine Or.inr ⟨.missingCredentials entry.1, ?_, ?_⟩
          · simp only [hcredential]
            rfl
          · rintro ⟨_, _, _, h, h', -⟩
            rw [hscheme] at h
            cases h
            rw [hcredential] at h'
            cases h'
      | some credential =>
          simp only [hcredential, Accounts.authenticator, pure_bind]
          cases hanswer : accounts.authenticate entry.1 credential entry.2 with
          | ok principal =>
              exact Or.inl ⟨_, rfl, scheme, credential, principal, hscheme,
                hcredential, hanswer⟩
          | error e =>
              refine Or.inr ⟨e, rfl, ?_⟩
              rintro ⟨_, _, _, h, h', h''⟩
              rw [hscheme] at h
              cases h
              rw [hcredential] at h'
              cases h'
              rw [hanswer] at h''
              cases h''

/-- Trying a clause leaves the store, and succeeds when all its entries open. -/
theorem satisfy_accounts (clause : Clause) (last : Option Auth.Identity)
    (s : Store) :
    (∃ who, satisfy schemes accounts.authenticator request last clause s
          = (.ok who, s) ∧ ∀ entry ∈ clause, Opens accounts request entry)
      ∨ ∃ e, satisfy schemes accounts.authenticator request last clause s
          = (.error e, s)
        ∧ ¬ ∀ entry ∈ clause, Opens accounts request entry := by
  induction clause generalizing last with
  | nil => exact Or.inl ⟨last, rfl, by simp⟩
  | cons entry rest ih =>
      rcases tryScheme_accounts entry s with ⟨who, htry, hopens⟩ | ⟨e, htry, hnot⟩
      · rw [Auth.satisfy_cons_ok schemes request htry]
        rcases ih (some who) with ⟨who, hrest, hall⟩ | ⟨e, hrest, hnot⟩
        · exact Or.inl ⟨who, hrest, List.forall_mem_cons.2 ⟨hopens, hall⟩⟩
        · exact Or.inr ⟨e, hrest, fun h => hnot (List.forall_mem_cons.1 h).2⟩
      · rw [Auth.satisfy_cons_error schemes request htry]
        exact Or.inr ⟨e, rfl, fun h => hnot (List.forall_mem_cons.1 h).1⟩

/-- Whether a requirement is met is decided on the request alone. -/
theorem evaluate_accounts (accounts : Accounts) (request : Request)
    (q : Requirement) (s : Store) :
    ∃ outcome, evaluate schemes accounts.authenticator request q s = (outcome, s)
      ∧ (outcome ≠ .unauthenticated ↔ Admits accounts request q) := by
  cases q with
  | anonymous => exact ⟨.anonymous, rfl, by simp [Admits]⟩
  | clauses cs =>
      show ∃ outcome, evaluateClauses schemes accounts.authenticator request cs s
          = (outcome, s) ∧ _
      induction cs with
      | nil => exact ⟨.unauthenticated, rfl, by simp [Admits]⟩
      | cons clause rest ih =>
          unfold evaluateClauses
          simp only [bind, StateT.bind]
          -- the first clause is met, or the question is left to the others
          rcases satisfy_accounts clause none s with ⟨who, hrun, hall⟩ | ⟨e, hrun, hnot⟩
          · have hadmits : Admits accounts request (.clauses (clause :: rest)) :=
              ⟨clause, List.mem_cons_self .., hall⟩
            rw [hrun]
            cases who with
            | none => exact ⟨.anonymous, rfl, by simpa using hadmits⟩
            | some who => exact ⟨.authenticated who, rfl, by simpa using hadmits⟩
          · obtain ⟨outcome, hrest, hiff⟩ := ih
            rw [hrun]
            refine ⟨outcome, hrest, hiff.trans ⟨?_, ?_⟩⟩
            · rintro ⟨c, hc, hall⟩
              exact ⟨c, List.mem_cons_of_mem _ hc, hall⟩
            · rintro ⟨c, hc, hall⟩
              rcases List.mem_cons.1 hc with rfl | hc
              · exact absurd hall hnot
              · exact ⟨c, hc, hall⟩

/-- A key is accepted when it is one of the accounts' keys. -/
theorem authenticate_key_iff (c : Credential) (scopes : List String) :
    (∃ p, accounts.authenticate Accounts.keyScheme c scopes = .ok p)
      ↔ ∃ key, c = .apiKey key ∧ key ∈ accounts.keys := by
  unfold Accounts.authenticate Accounts.authenticateKey
  rw [if_pos rfl]
  constructor
  · rintro ⟨p, h⟩
    cases c with
    | apiKey key =>
        by_cases hmem : key ∈ accounts.keys
        · exact ⟨key, rfl, hmem⟩
        · simp [hmem] at h
    | _ => cases h
  · rintro ⟨key, rfl, hmem⟩
    simp [hmem]

/-- A token is accepted when it grants all scopes that are asked for. -/
theorem authenticate_token_iff (c : Credential) (scopes : List String) :
    (∃ p, accounts.authenticate Accounts.tokenScheme c scopes = .ok p)
      ↔ ∃ token granted, c = .bearer token
          ∧ accounts.tokens.get? token = some granted
          ∧ ∀ scope ∈ scopes, scope ∈ granted := by
  have hne : Accounts.tokenScheme ≠ Accounts.keyScheme := by decide
  unfold Accounts.authenticate Accounts.authenticateToken
  rw [if_neg hne, if_pos rfl]
  constructor
  · rintro ⟨p, h⟩
    cases c with
    | bearer token =>
        cases hgranted : accounts.tokens.get? token with
        | none => simp [hgranted] at h
        | some granted =>
            by_cases hall : ∀ scope ∈ scopes, scope ∈ granted
            · exact ⟨token, granted, rfl, hgranted, hall⟩
            · simp [hgranted, hall] at h
    | _ => cases h
  · rintro ⟨token, granted, rfl, hgranted, hall⟩
    have hscopes : scopes.all granted.contains = true := by simpa using hall
    simp [hgranted, hscopes]

/-- The key scheme opens when the request shows a key of the accounts. -/
theorem opens_key_iff {scopes : List String} :
    Opens accounts request (Accounts.keyScheme, scopes)
      ↔ ShowsKey accounts request := by
  have hname : Header.nameOf? "X-API-Key" = some "x-api-key" := by
    decide +kernel
  have hscheme : schemes.get? Accounts.keyScheme
      = some (.apiKey "X-API-Key" .header) := by
    decide +kernel
  -- what the scheme shows is the first header of its name
  have hshown (c : Credential) :
      (Scheme.apiKey "X-API-Key" .header).credential? request = some c
        ↔ ∃ key, FirstHeader request "x-api-key" key ∧ key ≠ ""
            ∧ c = .apiKey key := by
    unfold Scheme.credential? Auth.key?
    simp only [Option.map_eq_some_iff, Option.bind_eq_some_iff,
      headerText?_eq_some_iff hname, nonEmpty_eq_some_iff]
    constructor
    · rintro ⟨key, ⟨text, htext, rfl, hne⟩, rfl⟩
      exact ⟨text, htext, hne, rfl⟩
    · rintro ⟨key, hkey, hne, rfl⟩
      exact ⟨key, ⟨key, hkey, rfl, hne⟩, rfl⟩
  constructor
  · rintro ⟨scheme, c, p, h, hc, hp⟩
    rw [hscheme] at h
    cases h
    obtain ⟨key, hkey, hne, rfl⟩ := (hshown c).1 hc
    obtain ⟨_, h, hmem⟩ := (authenticate_key_iff _ _).1 ⟨p, hp⟩
    cases h
    exact ⟨key, hkey, hne, hmem⟩
  · rintro ⟨key, hkey, hne, hmem⟩
    obtain ⟨p, hp⟩ := (authenticate_key_iff _ scopes).2 ⟨key, rfl, hmem⟩
    exact ⟨_, _, p, hscheme, (hshown _).2 ⟨key, hkey, hne, rfl⟩, hp⟩

/-- The token scheme opens when the request may write. -/
theorem opens_token_iff :
    Opens accounts request (Accounts.tokenScheme, ["pets:write"])
      ↔ MayWrite accounts request := by
  have hscheme : schemes.get? Accounts.tokenScheme = some (.http "bearer") := by
    decide +kernel
  have hshown : (Scheme.http "bearer").credential? request = bearer? request := by
    have hbasic : Scheme.sameWord "bearer" "basic" = false := by decide +kernel
    have hbearer : Scheme.sameWord "bearer" "bearer" = true := by decide +kernel
    unfold Scheme.credential?
    simp [hbasic, hbearer]
  constructor
  · rintro ⟨scheme, c, p, h, hc, hp⟩
    rw [hscheme] at h
    cases h
    rw [hshown] at hc
    obtain ⟨token, htoken, rfl⟩ := bearer?_eq_some_iff.1 hc
    obtain ⟨_, granted, h, hgranted, hall⟩ := (authenticate_token_iff _ _).1 ⟨p, hp⟩
    cases h
    exact ⟨token, granted, htoken, hgranted, hall _ (List.mem_singleton.2 rfl)⟩
  · rintro ⟨token, granted, htoken, hgranted, hmem⟩
    obtain ⟨p, hp⟩ := (authenticate_token_iff _ ["pets:write"]).2
      ⟨token, granted, rfl, hgranted, List.forall_mem_singleton.2 hmem⟩
    refine ⟨_, _, p, hscheme, ?_, hp⟩
    rw [hshown]
    exact bearer?_eq_some_iff.2 ⟨token, htoken, rfl⟩

/-- Behind the guard a call is answered by the handler of its route if the
requirement of the route is met, and turned away if it is not. -/
theorem answer_guarded {now : Timestamp} {s : Store} {route : Route Store}
    {captures : List (String × String)}
    (h : (service now (some accounts)).find? request = some (route, captures)) :
    (Admits accounts request (requirements.get route.key)
        ∧ ∃ identity, (service now (some accounts)).answer request s
            = route.handler
                { request, route := some route.key, captures, identity } s)
      ∨ (service now (some accounts)).answer request s
          = ({ Problem.unauthorized with
                subject := some request.uri.path }.response, s) := by
  obtain ⟨outcome, hrun, hiff⟩ :=
    evaluate_accounts accounts request (requirements.get route.key) s
  rw [Router.answer, h]
  simp only [Router.wrap, service, Option.map_some, Service.security,
    Service.guardWith, List.foldr_cons, List.foldr_nil, bind, StateT.bind]
  rw [hrun]
  cases outcome with
  | unauthenticated => exact Or.inr rfl
  | anonymous => exact Or.inl ⟨hiff.1 (by simp), none, rfl⟩
  | authenticated who => exact Or.inl ⟨hiff.1 (by simp), some who, rfl⟩

-- =============================================== who changes the store

variable {now : Timestamp} {s : Store}

/-- What entitles a request to change the store: it is routed to the creation of
a pet with a body that can be read, and shows a key or a token that may write;
or it is routed to the deletion of a pet that is there, and shows such a token. -/
inductive Entitled (now : Timestamp) (accounts : Accounts) (request : Request)
    (s : Store) : Prop where
  | create (new : NewPet)
      (route : (service now (some accounts)).find? request
        = some (⟨key .post petsPath, createPet now⟩, []))
      (body : Call.jsonBody { request } NewPet.read = .ok new)
      (shown : ShowsKey accounts request ∨ MayWrite accounts request)
  | delete (text : String) (id : Int) (pet : Pet)
      (route : (service now (some accounts)).find? request
        = some (⟨key .delete petPath, deletePet⟩, [("petId", text)]))
      (named : Numeric.readSigned 64 text = .ok id)
      (stored : s.pets.get? id = some pet)
      (shown : MayWrite accounts request)

/-- A pet may be created with a key or with a token that may write. -/
theorem admits_create :
    Admits accounts request (requirements.get (key .post petsPath))
      ↔ ShowsKey accounts request ∨ MayWrite accounts request := by
  have hget : requirements.get (key .post petsPath)
      = .clauses [keyClause, writerClause] := rfl
  rw [hget]
  simp [Admits, keyClause, writerClause, opens_key_iff, opens_token_iff]

/-- A pet may be deleted with a token that may write. -/
theorem admits_delete :
    Admits accounts request (requirements.get (key .delete petPath))
      ↔ MayWrite accounts request := by
  have hget : requirements.get (key .delete petPath)
      = .clauses [writerClause] := rfl
  rw [hget]
  simp [Admits, writerClause, opens_token_iff]

theorem listPets_keeps (c : Call) : (listPets c s).2 = s := by
  rw [listPets_apply]
  split <;> rfl

/-- Fetching a pet leaves the store. -/
theorem getPet_keeps (c : Call) : (getPet c s).2 = s := by
  rw [getPet_apply]
  cases petId c with
  | error e => rfl
  | ok id =>
      dsimp only
      split <;> rfl

/-- A pet is added only for a body that can be read, and the answer says so. -/
theorem createPet_cases (c : Call) :
    (createPet now c s).2 = s
      ∨ (createPet now c s).1.status = 201
        ∧ ∃ new, c.jsonBody NewPet.read = .ok new := by
  rw [createPet_apply]
  cases c.jsonBody NewPet.read with
  | error e => exact Or.inl rfl
  | ok new =>
      dsimp only
      split
      · exact Or.inl rfl
      · exact Or.inr ⟨rfl, new, rfl⟩

/-- A pet is taken away only where one is found, and the answer says so. -/
theorem deletePet_cases (c : Call) :
    (deletePet c s).2 = s
      ∨ (deletePet c s).1.status = 204
        ∧ ∃ id pet, petId c = .ok id ∧ s.pets.get? id = some pet := by
  rw [deletePet_apply]
  cases petId c with
  | error e => exact Or.inl rfl
  | ok id =>
      dsimp only
      split
      · exact Or.inl rfl
      · cases hpet : s.pets.get? id with
        | none =>
            left
            rw [Shelf.erase_of_get?_eq_none hpet]
        | some pet => exact Or.inr ⟨rfl, id, pet, rfl, hpet⟩

/-- An answer leaves the store as it was, or tells of a change that the request
was entitled to. -/
theorem answer_cases (now : Timestamp) (accounts : Accounts) (request : Request)
    (s : Store) :
    ((service now (some accounts)).answer request s).2 = s
      ∨ ((service now (some accounts)).answer request s).1.status ∈ [201, 204]
        ∧ Entitled now accounts request s := by
  cases hfind : (service now (some accounts)).find? request with
  | none =>
      left
      rw [answer_unrouted hfind]
  | some found =>
      obtain ⟨route, captures⟩ := found
      -- the handler runs only where the requirement is met, so the cases are those of
      -- the table
      rcases answer_guarded (s := s) hfind with ⟨hadmits, identity, hanswer⟩ | hanswer
      · rw [hanswer]
        have htable := hfind
        rw [find?_eq] at htable
        split at htable
        · cases htable
          exact Or.inl rfl
        · cases htable
          exact Or.inl (listPets_keeps _)
        · cases htable
          refine (createPet_cases _).imp_right ?_
          rintro ⟨hstatus, new, hbody⟩
          exact ⟨by rw [hstatus]; decide,
            .create new hfind hbody (admits_create.1 hadmits)⟩
        · cases htable
          exact Or.inl (getPet_keeps _)
        · cases htable
          refine (deletePet_cases _).imp_right ?_
          rintro ⟨hstatus, id, pet, hid, hpet⟩
          rw [petId_eq rfl] at hid
          split at hid
          · next hnamed =>
              cases hid
              exact ⟨by rw [hstatus]; decide, .delete _ _ pet hfind hnamed hpet
                (admits_delete.1 hadmits)⟩
          · cases hid
        · cases htable
      · left
        rw [hanswer]

-- ========================================================= main result

/-- Whatever the accounts, the store and the request are: what changes the
store is entitled to, and no answer that reports a fault or finds nothing comes
with a change. -/
theorem changes_are_authorized (now : Timestamp) (accounts : Accounts)
    (request : Request) (s : Store) :
    let answered := (service now (some accounts)).answer request s
    (answered.2.pets ≠ s.pets ∨ answered.2.counter ≠ s.counter →
        Entitled now accounts request s)
      ∧ (answered.1.status ∈ [400, 401, 404, 500] → answered.2 = s) := by
  intro answered
  rcases answer_cases now accounts request s with hkeep | ⟨hstatus, hentitled⟩
  · refine ⟨fun h => ?_, fun _ => hkeep⟩
    have hsame : answered.2 = s := hkeep
    rw [hsame] at h
    simp at h
  · refine ⟨fun _ => hentitled, fun h => ?_⟩
    have hchanged : answered.1.status ∈ [201, 204] := hstatus
    simp only [List.mem_cons, List.not_mem_nil, or_false] at h hchanged
    omega

-- a service with one key, on which the statement above is tried out

/-- One key, and nobody with a token. -/
def oneKey : Accounts := { keys := ["k"] }

/-- A moment at which pets are added. -/
def noon : Timestamp :=
  { date := { year := 2024, month := 1, day := 1 },
    hour := 12, minute := 0, second := 0 }

/-- A request that adds a pet. -/
def addRex (headers : List Header) : Request :=
  { method := ⟨"POST"⟩, uri := ⟨"/pets", none⟩, headers,
    body := Text.Utf8.bytes "\x7b\"name\":\"Rex\"\x7d" }

/-- With the key the pet is numbered; without it nothing happens. -/
theorem changes_are_authorized_oneKey :
    Entitled noon oneKey (addRex [⟨"x-api-key", [107]⟩]) {}
      ∧ ((service noon (some oneKey)).answer (addRex []) {}).2 = {} := by
  have hcounter : ((service noon (some oneKey)).answer
      (addRex [⟨"x-api-key", [107]⟩]) {}).2.counter ≠ 0 := by
    decide +kernel
  have hstatus : ((service noon (some oneKey)).answer (addRex []) {}).1.status
      = 401 := by
    decide +kernel
  exact ⟨(changes_are_authorized noon oneKey _ {}).1 (Or.inr hcounter),
    (changes_are_authorized noon oneKey _ {}).2 (by rw [hstatus]; decide)⟩

end ApiForge.Petstore
