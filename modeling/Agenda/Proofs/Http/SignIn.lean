import Agenda.Config
import Agenda.Proofs.Http.Gate
import Agenda.Proofs.Json.Record
import Agenda.Proofs.Text.Utf8

/-!
# Signing in and what it opens

The configured password, in any spelling of its object, is answered with a token, unless the body is
longer than the framework takes. A request that shows the token passes the gate for eight hours,
counted in whole seconds, wherever the cookie stands, and afterwards only with another valid token.
-/

namespace Agenda

open Text

/-- A password that is not blank is configured without the blanks around it. -/
theorem Config.password_eq {lookup : String → Option String} {raw : String}
    (hset : lookup "TODO_PASSWORD" = some raw) (hraw : ¬ AllBlank raw.toList) :
    (Config.ofLookup lookup).password = some (trim raw) ∧ trim raw ≠ "" := by
  have hne : trim raw ≠ "" := mt trim_eq_empty_iff.mp hraw
  refine ⟨?_, hne⟩
  simp [Config.ofLookup, Config.setting?, hset, hne]

@[simp] theorem checkPassword_empty (configured : String) : checkPassword "" configured = false :=
  rfl

theorem checkPassword_self {password : String} (h : password ≠ "") :
    checkPassword password password = true := by
  simp [checkPassword, h]

namespace Service

variable {settings : Settings} {now issued : Instant} {request : Request} {password token : String}

/-- The request hands in the password as the object of one text. -/
structure HandsIn (request : Request) (password : String) : Prop where
  method_eq : request.method = "POST"
  path_eq : request.path = "/api/signin"
  isJson : request.contentType.any MediaType.isJson = true
  isObject : Json.IsObject request.body.toList [("password", password)]

/-- The answer to a password in a body of this many bytes. -/
def answerPassword (settings : Settings) (now : Instant) (bytes : Nat) (password : String) :
    Response :=
  if maxBodyBytes < bytes then .badRequest "bad json"
  else if checkPassword password (settings.password.getD "") then
    granted (settings.password.getD "") now
  else .failure 401 "wrong password"

theorem HandsIn.signIn_eq (h : HandsIn request password) :
    signIn settings now request =
      .done (answerPassword settings now request.body.utf8ByteSize password) := by
  have hread : Json.readRecord ["password"] request.body = some [("password", password)] :=
    h.isObject.readRecord_eq (by simp) (by simp [Fields.Distinct])
  have htext : textOf [("password", password)] "password" = password := by simp [textOf, textOf?]
  unfold signIn withBody answerPassword
  by_cases hlong : maxBodyBytes < request.body.utf8ByteSize
  · have hunreadable : isReadable request = false := by simp [isReadable, hlong]
    simp [hunreadable, hlong]
  · have hreadable : isReadable request = true := by
      simp [isReadable, h.isJson, Nat.not_lt.mp hlong]
    simp only [hreadable, if_true, hread, htext, if_neg hlong]
    split <;> rfl

theorem HandsIn.handle_eq (h : HandsIn request password) :
    handle settings now request =
      .done (answerPassword settings now request.body.utf8ByteSize password) := by
  have hroute : Route.ofPath? request.path = some .signIn := by
    rw [h.path_eq]
    rfl
  have hrespond : respond settings now .signIn request =
      .done (answerPassword settings now request.body.utf8ByteSize password) := by
    simp [respond, h.method_eq, h.signIn_eq]
  rw [handle_open hroute rfl hrespond, if_neg (by simp [h.method_eq])]

theorem HandsIn.handle_eq_granted (h : HandsIn request password)
    (hset : settings.password = some password) (hne : password ≠ "")
    (hsize : request.body.utf8ByteSize ≤ maxBodyBytes) :
    handle settings now request = .done (granted password now) := by
  rw [h.handle_eq, answerPassword, if_neg (Nat.not_lt.mpr hsize), hset, Option.getD_some,
    if_pos (checkPassword_self hne)]

theorem HandsIn.handle_eq_badJson (h : HandsIn request password)
    (hsize : maxBodyBytes < request.body.utf8ByteSize) :
    handle settings now request = .done (.badRequest "bad json") := by
  rw [h.handle_eq, answerPassword, if_pos hsize]

theorem HandsIn.lt_utf8ByteSize (h : HandsIn request password)
    (hlong : maxBodyBytes ≤ password.length) : maxBodyBytes < request.body.utf8ByteSize := by
  have hlt := h.isObject.length_lt
  have hle := length_le_utf8ByteSize request.body.toList
  rw [String.ofList_toList] at hle
  dsimp only at hlt
  omega

theorem HandsIn.handle_eq_wrongPassword (h : HandsIn request "")
    (hsize : request.body.utf8ByteSize ≤ maxBodyBytes) :
    handle settings now request = .done (.failure 401 "wrong password") := by
  rw [h.handle_eq, answerPassword, if_neg (Nat.not_lt.mpr hsize), checkPassword_empty]
  rfl

theorem isObject_granted (password : String) (now : Instant) :
    (granted password now).status = 200 ∧
      Json.IsObject (granted password now).body.toList [("token", Token.issue password now)] :=
  ⟨rfl, Json.isObject_write [("token", Token.issue password now)]⟩

def isPrintable (c : Char) : Bool := 0x20 ≤ c.toNat && c.toNat ≤ 0x7E

theorem isPrintable_iff {c : Char} : isPrintable c = true ↔ 0x20 ≤ c.toNat ∧ c.toNat ≤ 0x7E := by
  simp [isPrintable]

def ArePrintable (cookies : List String) : Prop :=
  ∀ header ∈ cookies, ∀ c ∈ header.toList, isPrintable c = true

theorem hasValidToken_iff {cookies : List String} (h : ArePrintable cookies) :
    hasValidToken password now cookies = true ↔
      ∃ header ∈ cookies, ∃ token, Cookie.Carries header token ∧
        Token.verify token password now = true := by
  have hvisible : cookies.filter isVisible = cookies := by
    rw [List.filter_eq_self]
    intro header hheader
    rw [isVisible, List.all_eq_true]
    intro c hc
    simp [isPrintable_iff.mp (h header hheader c hc)]
  simp only [hasValidToken, hvisible, List.any_eq_true, List.mem_filterMap,
    Cookie.token?_eq_some_iff]
  constructor
  · rintro ⟨token, ⟨header, hheader, hcarries⟩, hvalid⟩
    exact ⟨header, hheader, token, hcarries, hvalid⟩
  · rintro ⟨header, hheader, token, hcarries, hvalid⟩
    exact ⟨token, ⟨header, hheader, hcarries⟩, hvalid⟩

/-- The request passes the gate. -/
def Admits (settings : Settings) (now : Instant) (request : Request) : Prop :=
  isAuthorized settings now request = true ∧
    ∀ route, Route.ofPath? request.path = some route →
      answer settings now request = respond settings now route request

/-- The request does not pass the gate, and is refused on every path behind it. -/
def Refuses (settings : Settings) (now : Instant) (request : Request) : Prop :=
  isAuthorized settings now request = false ∧
    (IsGatedPath request.path → handle settings now request = .done (refusal request))

theorem admits_of_isAuthorized (h : isAuthorized settings now request = true) :
    Admits settings now request := by
  refine ⟨h, ?_⟩
  intro route hroute
  simp [answer, hroute, h]

theorem refuses_of_not_isAuthorized (h : isAuthorized settings now request = false) :
    Refuses settings now request := by
  refine ⟨h, ?_⟩
  intro hpath
  obtain ⟨route, hroute, hgated⟩ := hpath.exists_route
  exact handle_gated hroute hgated h

/-- The token opens the service until it expires, and afterwards nothing but another valid token
does. -/
theorem gate_of_carries (hset : settings.password = some password) (hne : password ≠ "")
    (hprintable : ArePrintable request.cookies)
    (hcarries : ∃ header ∈ request.cookies, Cookie.Carries header (Token.issue password issued)) :
    (now.unix < issued.unix + 28800 → Admits settings now request) ∧
    (issued.unix + 28800 ≤ now.unix →
      (∀ header ∈ request.cookies, ∀ other, Cookie.Carries header other →
        other ≠ Token.issue password issued → Token.verify other password now = false) →
      Refuses settings now request) := by
  have hauthorized : isAuthorized settings now request =
      hasValidToken password now request.cookies := by
    rw [isAuthorized, hset]
  have hvalid : Token.verify (Token.issue password issued) password now = true ↔
      now.unix < issued.unix + 28800 := Token.verify_issue_eq_true_iff hne
  constructor
  · intro hnow
    apply admits_of_isAuthorized
    obtain ⟨header, hheader, hcarries⟩ := hcarries
    rw [hauthorized, hasValidToken_iff hprintable]
    exact ⟨header, hheader, _, hcarries, hvalid.mpr hnow⟩
  · intro hnow hothers
    apply refuses_of_not_isAuthorized
    rw [hauthorized, Bool.eq_false_iff, ne_eq, hasValidToken_iff hprintable]
    rintro ⟨header, hheader, other, hcarries, hother⟩
    by_cases heq : other = Token.issue password issued
    · rw [heq, hvalid] at hother
      exact absurd hother (Int.not_lt.mpr hnow)
    · rw [hothers header hheader other hcarries heq] at hother
      cases hother

/-- The password that is not blank is configured without the blanks around it, and opens the
service. A request that hands it in, in a body that is not longer than the framework takes, is
answered with a token; a request with the token as the first pair of its name in some cookie header
passes the gate for eight hours, counted in whole seconds, and is refused afterwards unless it shows
another valid token. An empty password is never the right one. -/
theorem configured_password_opens {lookup : String → Option String} {raw : String}
    (hset : lookup "TODO_PASSWORD" = some raw) (hraw : ¬ AllBlank raw.toList) :
    ∃ password, (Config.ofLookup lookup).password = some password ∧ password = trim raw ∧
      password ≠ "" ∧
      (∀ (settings : Settings) (issued : Instant) (request : Request),
        settings.password = some password → HandsIn request password →
        request.body.utf8ByteSize ≤ maxBodyBytes →
        ∃ token response, token = Token.issue password issued ∧
          handle settings issued request = .done response ∧ response.status = 200 ∧
          Json.IsObject response.body.toList [("token", token)] ∧
          ∀ (settings' : Settings) (later : Request) (now : Instant),
            settings'.password = some password → ArePrintable later.cookies →
            (∃ header ∈ later.cookies, Cookie.Carries header token) →
            (now.unix < issued.unix + 28800 → Admits settings' now later) ∧
            (issued.unix + 28800 ≤ now.unix →
              (∀ header ∈ later.cookies, ∀ other, Cookie.Carries header other → other ≠ token →
                Token.verify other password now = false) →
              Refuses settings' now later)) ∧
      (∀ (settings : Settings) (now : Instant) (request : Request), HandsIn request password →
        maxBodyBytes < request.body.utf8ByteSize →
        handle settings now request = .done (.badRequest "bad json")) ∧
      (∀ configured, checkPassword "" configured = false) ∧
      ∀ (settings : Settings) (now : Instant) (request : Request), HandsIn request "" →
        request.body.utf8ByteSize ≤ maxBodyBytes →
        handle settings now request = .done (.failure 401 "wrong password") := by
  obtain ⟨hconfigured, hne⟩ := Config.password_eq hset hraw
  refine ⟨trim raw, hconfigured, rfl, hne, ?opens, ?tooLong, checkPassword_empty, ?empty⟩
  case opens =>
    intro settings issued request hpassword hhandsIn hsize
    obtain ⟨hstatus, hobject⟩ := isObject_granted (trim raw) issued
    refine ⟨_, _, rfl, hhandsIn.handle_eq_granted hpassword hne hsize, hstatus, hobject, ?_⟩
    intro settings' later now hpassword' hprintable hcarries
    exact gate_of_carries hpassword' hne hprintable hcarries
  case tooLong =>
    intro settings now request hhandsIn hsize
    exact hhandsIn.handle_eq_badJson hsize
  case empty =>
    intro settings now request hhandsIn hsize
    exact hhandsIn.handle_eq_wrongPassword hsize

/-- The request that hands in the password with its object written plainly. -/
def handingIn (password : String) : Request where
  method := "POST"
  target := "/api/signin"
  contentType := some "application/json"
  cookies := []
  body := (Json.Value.object (Json.textMembers [("password", password)])).write

theorem handsIn_handingIn (password : String) : HandsIn (handingIn password) password where
  method_eq := rfl
  path_eq := by
    have hpath : Request.path ⟨"POST", "/api/signin", none, [], ""⟩ = "/api/signin" := by decide
    rw [← hpath]
    simp only [Request.path, Request.resource, handingIn]
  isJson := by
    have hjson : MediaType.isJson "application/json" = true := by decide
    exact hjson
  isObject := Json.isObject_write [("password", password)]

/-- A request that shows the token among other cookies. -/
def showing (token : String) : Request :=
  ⟨"GET", "/api/tasks", none, ["lang=en ;  token=" ++ token ++ " ; token=7"], ""⟩

theorem arePrintable_showing (password : String) (issued : Instant) :
    ArePrintable (showing (Token.issue password issued)).cookies := by
  intro h hh c hc
  obtain rfl := List.mem_singleton.mp hh
  rw [String.toList_append, String.toList_append, List.mem_append, List.mem_append] at hc
  have hbefore : "lang=en ;  token=".toList.all isPrintable = true := by decide
  have hafter : " ; token=7".toList.all isPrintable = true := by decide
  rcases hc with (hc | hc) | hc
  · exact List.all_eq_true.mp hbefore c hc
  · have hchar := Token.issue_chars password issued c hc
    exact isPrintable_iff.mpr ⟨Nat.le_of_lt hchar.1, hchar.2.1⟩
  · exact List.all_eq_true.mp hafter c hc

theorem carries_showing_iff (password : String) (issued : Instant) :
    ∀ header ∈ (showing (Token.issue password issued)).cookies, ∀ other,
      Cookie.Carries header other ↔ other = Token.issue password issued := by
  intro header hheader other
  obtain rfl := List.mem_singleton.mp hheader
  have hlang : ∀ value, ¬ Cookie.IsPair "lang=en ".toList Cookie.name.toList value := by
    intro value hpair
    cases Cookie.pair?_eq_some_iff.mpr hpair
  have hissued := @Cookie.carries_issue password issued [' ', ' '] [' ']
    ["lang=en ".toList] [" token=7".toList]
    (List.forall_mem_singleton.mpr ⟨by decide, hlang⟩) (by decide) (by decide) (by decide)
  have htext : "lang=en ;  token=" ++ Token.issue password issued ++ " ; token=7" =
      String.ofList ([';'].intercalate (["lang=en ".toList] ++
        ([' ', ' '] ++ Cookie.tokenPair (Token.issue password issued) ++ [' ']) ::
          [" token=7".toList])) := by
    apply String.toList_inj.mp
    simp [Cookie.tokenPair, Cookie.name]
  rw [← htext, ← Cookie.token?_eq_some_iff] at hissued
  rw [← Cookie.token?_eq_some_iff, hissued, Option.some.injEq, eq_comm]

theorem exists_carries_showing (password : String) (issued : Instant) :
    ∃ header ∈ (showing (Token.issue password issued)).cookies,
      Cookie.Carries header (Token.issue password issued) :=
  ⟨_, List.mem_singleton_self _,
    (carries_showing_iff password issued _ (List.mem_singleton_self _) _).mpr rfl⟩

theorem no_other_showing (password : String) (issued now : Instant) :
    ∀ header ∈ (showing (Token.issue password issued)).cookies, ∀ other,
      Cookie.Carries header other → other ≠ Token.issue password issued →
      Token.verify other password now = false := by
  intro header hheader other hother hdiffers
  exact absurd ((carries_showing_iff password issued header hheader other).mp hother) hdiffers

/-- The token opens the service from among other cookies, up to the last nanosecond. -/
theorem configured_password_opens_cafe :
    (Config.ofLookup fun _ => some " café\n").password = some "café" ∧
    ∃ (settings : Settings) (token : String) (response : Response),
      settings.password = some "café" ∧
      (handingIn "café").body = "\x7b\"password\":\"café\"\x7d" ∧
      handle settings .epoch (handingIn "café") = .done response ∧ response.status = 200 ∧
      Json.IsObject response.body.toList [("token", token)] ∧
      (showing token).cookies = ["lang=en ;  token=" ++ token ++ " ; token=7"] ∧
      Admits settings ⟨Day.epoch, 28799, 999999999⟩ (showing token) ∧
      Refuses settings ⟨Day.epoch, 28800, 0⟩ (showing token) := by
  have htrim : trim " café\n" = "café" := by decide
  obtain ⟨_, hconfigured, rfl, -, hopens, -⟩ :=
    @configured_password_opens (fun _ => some " café\n") _ rfl (by decide)
  rw [htrim] at hconfigured hopens
  let settings : Settings := ⟨some "café", none, Day.epoch⟩
  obtain ⟨_, response, rfl, hresponse, hstatus, hobject, hgate⟩ :=
    hopens settings .epoch (handingIn "café") rfl (handsIn_handingIn "café") (by decide)
  have hprintable := arePrintable_showing "café" .epoch
  have hshown := exists_carries_showing "café" .epoch
  exact ⟨hconfigured, settings, _, response, rfl, by decide, hresponse, hstatus, hobject, rfl,
    (hgate settings _ _ rfl hprintable hshown).1 (by decide),
    (hgate settings _ _ rfl hprintable hshown).2 (by decide) (no_other_showing "café" .epoch _)⟩

def longPassword (n : Nat) : String := String.ofList (List.replicate n 'a')

theorem toList_longPassword (n : Nat) : (longPassword n).toList = List.replicate n 'a' :=
  String.toList_ofList

theorem trim_longPassword (n : Nat) : trim (longPassword n) = longPassword n := by
  have hblank : ∀ c ∈ List.replicate n 'a', isBlank c = false := by
    intro c hc
    rw [List.eq_of_mem_replicate hc]
    rfl
  rw [trim, toList_longPassword, trimmed_eq_self hblank]
  rfl

theorem not_allBlank_longPassword {n : Nat} (h : n ≠ 0) : ¬ AllBlank (longPassword n).toList := by
  intro hblank
  rw [toList_longPassword] at hblank
  have ha := hblank 'a' (List.mem_replicate.mpr ⟨h, rfl⟩)
  cases ha

/-- A token that is issued late in a second is refused before eight hours have passed. -/
theorem refuses_before_eight_hours (hset : settings.password = some password)
    (hne : password ≠ "") :
    Instant.nanoseconds ⟨Day.epoch, 28800, 500000000⟩ <
      Instant.nanoseconds ⟨Day.epoch, 0, 900000000⟩ + 28800 * 10 ^ 9 ∧
    Refuses settings ⟨Day.epoch, 28800, 500000000⟩
      (showing (Token.issue password ⟨Day.epoch, 0, 900000000⟩)) := by
  refine ⟨by decide, ?_⟩
  obtain ⟨-, hrefuses⟩ := @gate_of_carries settings ⟨Day.epoch, 28800, 500000000⟩
    ⟨Day.epoch, 0, 900000000⟩ _ password hset hne (arePrintable_showing password _)
    (exists_carries_showing password _)
  exact hrefuses (by decide) (no_other_showing password _ _)

/-- A password as long as a body may be is configured, and cannot be handed in. A token that is
issued 0.9 seconds into 1970 is refused 28800.5 seconds into it, before eight hours have passed. -/
theorem longPassword_is_refused :
    (¬ AllBlank (longPassword maxBodyBytes).toList ∧
      (Config.ofLookup fun _ => some (longPassword maxBodyBytes)).password =
        some (longPassword maxBodyBytes) ∧
      HandsIn (handingIn (longPassword maxBodyBytes)) (longPassword maxBodyBytes) ∧
      handle ⟨some (longPassword maxBodyBytes), none, Day.epoch⟩ .epoch
        (handingIn (longPassword maxBodyBytes)) = .done (.badRequest "bad json") ∧
      (Response.badRequest "bad json").status = 400) ∧
    ∃ (settings : Settings) (token : String) (response : Response),
      settings.password = (Config.ofLookup fun _ => some "café").password ∧
      handle settings ⟨Day.epoch, 0, 900000000⟩ (handingIn "café") = .done response ∧
      response.status = 200 ∧ Json.IsObject response.body.toList [("token", token)] ∧
      ArePrintable (showing token).cookies ∧
      (∃ header ∈ (showing token).cookies, Cookie.Carries header token) ∧
      Instant.nanoseconds ⟨Day.epoch, 28800, 500000000⟩ <
        Instant.nanoseconds ⟨Day.epoch, 0, 900000000⟩ + 28800 * 10 ^ 9 ∧
      Refuses settings ⟨Day.epoch, 28800, 500000000⟩ (showing token) := by
  constructor
  · have hne : maxBodyBytes ≠ 0 := by simp [maxBodyBytes]
    have hblank := not_allBlank_longPassword hne
    obtain ⟨hconfigured, -⟩ :=
      @Config.password_eq (fun _ => some (longPassword maxBodyBytes)) _ rfl hblank
    rw [trim_longPassword] at hconfigured
    have hhandsIn := handsIn_handingIn (longPassword maxBodyBytes)
    have hlength : maxBodyBytes ≤ (longPassword maxBodyBytes).length := by
      rw [← String.length_toList, toList_longPassword, List.length_replicate]
    exact ⟨hblank, hconfigured, hhandsIn,
      hhandsIn.handle_eq_badJson (hhandsIn.lt_utf8ByteSize hlength), rfl⟩
  · let settings : Settings := ⟨some "café", none, Day.epoch⟩
    have hconfigured : settings.password = (Config.ofLookup fun _ => some "café").password := by
      decide
    obtain ⟨hstatus, hobject⟩ := isObject_granted "café" ⟨Day.epoch, 0, 900000000⟩
    have hset : settings.password = some "café" := rfl
    have hgranted : handle settings ⟨Day.epoch, 0, 900000000⟩ (handingIn "café") = _ :=
      (handsIn_handingIn "café").handle_eq_granted hset (by decide) (by decide)
    obtain ⟨hbefore, hrefuses⟩ := refuses_before_eight_hours hset (by decide)
    exact ⟨settings, _, _, hconfigured, hgranted, hstatus, hobject, arePrintable_showing "café" _,
      exists_carries_showing "café" _, hbefore, hrefuses⟩

end Service
end Agenda
