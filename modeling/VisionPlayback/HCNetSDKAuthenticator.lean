import Mathlib.Data.List.TakeWhile
import VisionPlayback.CameraSessions
import VisionPlayback.TimeCodec

/-!
# The authenticator over the camera SDK

`HCNetSDKAuthenticator` under the login cache. The SDK may answer anything; it is
trusted, as an authenticator is, to hand out no user id that is still logged in. The
widths of its text fields are in a header of its own and are parameters.
-/

namespace VisionPlayback

open Lib

/-- The sizes of the text fields of `NET_DVR_USER_LOGIN_INFO`. -/
structure LoginInfoWidths where
  deviceAddress : ℕ
  userName : ℕ
  password : ℕ
  deviceAddress_pos : 0 < deviceAddress
  userName_pos : 0 < userName
  password_pos : 0 < password

structure NetDvrUserLoginInfo where
  sDeviceAddress : Bytes
  wPort : UInt16
  sUserName : Bytes
  sPassword : Bytes
  bUseAsynLogin : UInt32 := 0
  deriving DecidableEq

/-- What the SDK answers in one call. -/
structure Sdk where
  loginV40 : NetDvrUserLoginInfo → Int32
  getLastError : UInt32

/-- Calls of the SDK, with their results. -/
inductive SdkCall
  | loginV40 (info : NetDvrUserLoginInfo) (userId : Int32)
  | getLastError (code : UInt32)
  | logoutV30 (userId : Int32)
  deriving DecidableEq

/-! ## Texts in buffers -/

/-- What `c_str()` shows of a text: the bytes before the first terminator. -/
def cString (s : String) : Bytes := (utf8 s).takeWhile (· ≠ 0)

/-- A buffer of zeros after `strncpy` of a text, with one byte less than its size. -/
def strncpy (size : ℕ) (s : String) : Bytes :=
  let copied := (cString s).take (size - 1)
  copied ++ List.replicate (size - copied.length) 0

/-- The text fits the buffer with its terminator, and has none inside. -/
def FitsBuffer (size : ℕ) (s : String) : Prop := (utf8 s).length < size ∧ 0 ∉ utf8 s

instance (size : ℕ) (s : String) : Decidable (FitsBuffer size s) := by
  unfold FitsBuffer
  infer_instance

/-- The authenticator with the calls it has made. -/
structure HCNetSDKAuthenticator where
  lastError : Int32 := 0
  /-- In the order they were made. -/
  calls : List SdkCall := []
  deriving DecidableEq

namespace HCNetSDKAuthenticator

variable (widths : LoginInfoWidths) (sdk : Sdk)

def loginInfo (credentials : Credentials) : NetDvrUserLoginInfo where
  sDeviceAddress := strncpy widths.deviceAddress credentials.ip
  wPort := credentials.port
  sUserName := strncpy widths.userName credentials.user
  sPassword := strncpy widths.password credentials.pass

def login (credentials : Credentials) (a : HCNetSDKAuthenticator) :
    SessionToken × HCNetSDKAuthenticator :=
  let info := loginInfo widths credentials
  let userId := sdk.loginV40 info
  let a :=
    if userId < 0 then
      { a with
        lastError := sdk.getLastError.toInt32
        calls := a.calls ++ [.loginV40 info userId, .getLastError sdk.getLastError] }
    else { a with lastError := 0, calls := a.calls ++ [.loginV40 info userId] }
  (userId.toInt, a)

def logout (token : SessionToken) (a : HCNetSDKAuthenticator) : HCNetSDKAuthenticator :=
  if token < 0 then a else { a with calls := a.calls ++ [.logoutV30 (.ofInt token)] }

/-- What the authenticator does when it is called. -/
def obey (a : HCNetSDKAuthenticator) : AuthCall → HCNetSDKAuthenticator
  | .login credentials _ => (a.login widths sdk credentials).2
  | .logout token => a.logout token

end HCNetSDKAuthenticator

/-! ## The login cache over the SDK -/

namespace LoginUseCase

/-- The login cache with its authenticator. -/
structure Stack where
  sessions : Sessions := {}
  authenticator : HCNetSDKAuthenticator := {}

/-- A call of `ensureLoggedIn`, with the clock readings and the SDK that it meets. -/
structure SdkRequest where
  sweepNow : Int
  now : Int
  sdk : Sdk
  credentials : Credentials

/-- The request as the login cache sees it. -/
def SdkRequest.request (widths : LoginInfoWidths) (r : SdkRequest) : Request where
  env := {
    sweepNow := r.sweepNow
    now := r.now
    login := fun c => (({} : HCNetSDKAuthenticator).login widths r.sdk c).1 }
  credentials := r.credentials

/-- Each call of the cache is carried out by the authenticator. -/
def stack (widths : LoginInfoWidths) (idleTimeout : Int) : System Stack SdkRequest where
  step r s :=
    let request := r.request widths
    ((sessions idleTimeout).step request s.sessions).map fun sessions =>
      { sessions
        authenticator := (request.calls idleTimeout s.sessions).foldl
          (HCNetSDKAuthenticator.obey widths r.sdk) s.authenticator }

end LoginUseCase

/-! ## What the SDK has been told -/

section Buffers

variable {size : ℕ} {s s' : String}

theorem utf8_inj (h : utf8 s = utf8 s') : s = s' := by
  have hdata : s.toUTF8.data = s'.toUTF8.data := Array.toList_inj.mp h
  have hbytes : s.toByteArray = s'.toByteArray := ByteArray.ext hdata
  exact String.toByteArray_inj.mp hbytes

/-- A buffer is full, and ends with a terminator. -/
theorem length_strncpy (h : 0 < size) (s : String) : (strncpy size s).length = size := by
  have hle : ((cString s).take (size - 1)).length ≤ size - 1 := List.length_take_le _ _
  simp only [strncpy, List.length_append, List.length_replicate]
  omega

/-- What can be read back from a buffer. -/
theorem takeWhile_strncpy (h : 0 < size) (s : String) :
    (strncpy size s).takeWhile (· ≠ 0) = (cString s).take (size - 1) := by
  have hle : ((cString s).take (size - 1)).length ≤ size - 1 := List.length_take_le _ _
  have hplain : ∀ c ∈ (cString s).take (size - 1), decide (c ≠ 0) = true := by
    intro c hc
    have hmem : c ∈ (utf8 s).takeWhile (· ≠ 0) := List.mem_of_mem_take hc
    exact List.mem_takeWhile_imp (p := fun b : UInt8 => decide (b ≠ 0)) hmem
  obtain ⟨n, hn⟩ : ∃ n, size - ((cString s).take (size - 1)).length = n + 1 :=
    ⟨size - ((cString s).take (size - 1)).length - 1, by omega⟩
  rw [strncpy, hn, List.replicate_succ, List.takeWhile_append_of_pos hplain]
  simp

theorem FitsBuffer.cString (h : FitsBuffer size s) : (cString s).take (size - 1) = utf8 s := by
  have hplain : VisionPlayback.cString s = utf8 s :=
    List.takeWhile_eq_self_iff.mpr fun c hc => decide_eq_true fun he => h.2 (he ▸ hc)
  rw [hplain, List.take_of_length_le]
  have hlt := h.1
  omega

/-- Texts that fit are told apart. -/
theorem strncpy_inj (h : FitsBuffer size s) (h' : FitsBuffer size s')
    (he : strncpy size s = strncpy size s') : s = s' := by
  have hpos : 0 < size := Nat.lt_of_le_of_lt (Nat.zero_le _) h.1
  have hread := congrArg (List.takeWhile (· ≠ 0)) he
  rw [takeWhile_strncpy hpos, takeWhile_strncpy hpos, h.cString, h'.cString] at hread
  exact utf8_inj hread

end Buffers

/-! ## One call of the cache, carried out -/

namespace HCNetSDKAuthenticator

variable {widths : LoginInfoWidths} {sdk : Sdk} {a : HCNetSDKAuthenticator} {c : AuthCall}

/-- What the SDK is called with for a call of the cache. -/
def carried (widths : LoginInfoWidths) (sdk : Sdk) : AuthCall → List SdkCall
  | .login credentials _ =>
    let userId := sdk.loginV40 (loginInfo widths credentials)
    .loginV40 (loginInfo widths credentials) userId ::
      if userId < 0 then [.getLastError sdk.getLastError] else []
  | .logout token => if token < 0 then [] else [.logoutV30 (.ofInt token)]

/-- The error that a log of calls leaves. -/
def errorAfter (e : Int32) (calls : List SdkCall) : Int32 :=
  calls.foldl (fun e call => match call with
    | .loginV40 _ _ => 0
    | .getLastError code => code.toInt32
    | .logoutV30 _ => e) e

theorem obey_eq (a : HCNetSDKAuthenticator) (c : AuthCall) : a.obey widths sdk c =
    { lastError := errorAfter a.lastError (carried widths sdk c)
      calls := a.calls ++ carried widths sdk c } := by
  cases c with
  | login credentials token =>
    simp only [obey, login, carried]
    by_cases hneg : sdk.loginV40 (loginInfo widths credentials) < 0
    · rw [if_pos hneg, if_pos hneg]
      rfl
    · rw [if_neg hneg, if_neg hneg]
      rfl
  | logout token =>
    simp only [obey, logout, carried]
    by_cases hneg : token < 0
    · rw [if_pos hneg, if_pos hneg, List.append_nil]
      rfl
    · rw [if_neg hneg, if_neg hneg]
      rfl

theorem errorAfter_append (e : Int32) (calls calls' : List SdkCall) :
    errorAfter e (calls ++ calls') = errorAfter (errorAfter e calls) calls' := List.foldl_append

theorem foldl_obey (cs : List AuthCall) (a : HCNetSDKAuthenticator) :
    cs.foldl (obey widths sdk) a =
      { lastError := errorAfter a.lastError (cs.flatMap (carried widths sdk))
        calls := a.calls ++ cs.flatMap (carried widths sdk) } := by
  induction cs generalizing a with
  | nil => rw [List.flatMap_nil, List.append_nil]; rfl
  | cons c cs ih =>
    rw [List.foldl_cons, ih, obey_eq, List.flatMap_cons, errorAfter_append, List.append_assoc]

/-! ### Leases of user ids -/

def sdkLease : SdkCall → Option (Lease.Event Int32)
  | .loginV40 _ userId => if userId < 0 then none else some (.grant userId)
  | .getLastError _ => none
  | .logoutV30 userId => some (.revoke userId)

def sdkLeases (calls : List SdkCall) : List (Lease.Event Int32) := calls.filterMap sdkLease

/-- The user ids that are logged in. -/
def liveIds (calls : List SdkCall) : List Int32 := Lease.after [] (sdkLeases calls)

/-- A token of the cache is a user id of the SDK, and its login says what the SDK says. -/
def Faithful (widths : LoginInfoWidths) (sdk : Sdk) : AuthCall → Prop
  | .login credentials token => token = (sdk.loginV40 (loginInfo widths credentials)).toInt
  | .logout token => ∃ userId : Int32, token = userId.toInt ∧ 0 ≤ token

theorem toInt_neg_iff (userId : Int32) : userId.toInt < 0 ↔ userId < 0 :=
  (Int32.lt_iff_toInt_lt (x := userId) (y := 0)).symm

theorem lease_carried (h : Faithful widths sdk c) :
    leases [c] = (sdkLeases (carried widths sdk c)).map (Lease.Event.map Int32.toInt) := by
  cases c with
  | login credentials token =>
    obtain rfl : token = (sdk.loginV40 (loginInfo widths credentials)).toInt := h
    by_cases hneg : sdk.loginV40 (loginInfo widths credentials) < 0
    · simp [leases, AuthCall.lease, carried, sdkLeases, sdkLease, hneg, toInt_neg_iff]
    · simp [leases, AuthCall.lease, carried, sdkLeases, sdkLease, hneg, toInt_neg_iff,
        Lease.Event.map]
  | logout token =>
    obtain ⟨userId, rfl, hpos⟩ := h
    have hneg : ¬ userId.toInt < 0 := Int.not_lt.mpr hpos
    simp [leases, AuthCall.lease, carried, sdkLeases, sdkLease, hneg, Lease.Event.map]

theorem leases_carried {cs : List AuthCall} (h : ∀ c ∈ cs, Faithful widths sdk c) :
    leases cs = (sdkLeases (cs.flatMap (carried widths sdk))).map (Lease.Event.map Int32.toInt) := by
  induction cs with
  | nil => rfl
  | cons c cs ih =>
    rw [List.forall_mem_cons] at h
    have hcons : leases (c :: cs) = leases [c] ++ leases cs := LoginUseCase.leases_append [c] cs
    rw [hcons, lease_carried h.1, ih h.2, List.flatMap_cons, sdkLeases, sdkLeases, sdkLeases,
      List.filterMap_append, List.map_append]

end HCNetSDKAuthenticator

/-! ## Runs -/

namespace LoginUseCase

open HCNetSDKAuthenticator

variable {widths : LoginInfoWidths} {idleTimeout : Int} {s s' : Stack} {r : SdkRequest}

theorem login_request (widths : LoginInfoWidths) (r : SdkRequest) (c : Credentials) :
    (r.request widths).env.login c = (r.sdk.loginV40 (loginInfo widths c)).toInt := rfl

/-- Two ways through a request: the swept cache has a session, or the camera is asked. -/
theorem ensureLoggedIn_cases (idleTimeout : Int) (env : Env) (credentials : Credentials)
    (cache : Cache) :
    (∃ e, (sweepIdle idleTimeout env.sweepNow cache).1.lookup credentials.identity = some e ∧
      ensureLoggedIn idleTimeout env credentials cache =
        (e.token, (sweepIdle idleTimeout env.sweepNow cache).1.insert credentials.identity
          { e with lastUsed := env.now }, (sweepIdle idleTimeout env.sweepNow cache).2)) ∨
    ((sweepIdle idleTimeout env.sweepNow cache).1.lookup credentials.identity = none ∧
      ensureLoggedIn idleTimeout env credentials cache =
        (env.login credentials,
          if env.login credentials < 0 then (sweepIdle idleTimeout env.sweepNow cache).1
          else (sweepIdle idleTimeout env.sweepNow cache).1.insert credentials.identity
            ⟨env.login credentials, env.now⟩,
          (sweepIdle idleTimeout env.sweepNow cache).2 ++
            [.login credentials (env.login credentials)])) := by
  unfold ensureLoggedIn
  dsimp only
  split
  · next e he => exact Or.inl ⟨e, he, rfl⟩
  · next hnone =>
    refine Or.inr ⟨hnone, ?_⟩
    split
    · rfl
    · rw [Table.emplace_of_notMem (AList.lookup_eq_none.mp hnone)]
      rfl

/-- The latest login that the SDK has answered with the user id was this one. -/
def LoggedInAs (calls : List SdkCall) (info : NetDvrUserLoginInfo) (userId : Int32) : Prop :=
  ∃ before later, calls = before ++ .loginV40 info userId :: later ∧
    ∀ info', .loginV40 info' userId ∉ later

theorem LoggedInAs.append {calls later : List SdkCall} {info : NetDvrUserLoginInfo}
    {userId : Int32} (h : LoggedInAs calls info userId)
    (hl : ∀ info', .loginV40 info' userId ∉ later) : LoggedInAs (calls ++ later) info userId := by
  obtain ⟨before, between, rfl, hb⟩ := h
  refine ⟨before, between ++ later, by rw [List.append_assoc, List.cons_append], ?_⟩
  intro info' hmem
  rcases List.mem_append.mp hmem with hmem | hmem
  · exact hb info' hmem
  · exact hl info' hmem

/-- The authenticator keeps the cache and the SDK in step. -/
structure InStep (widths : LoginInfoWidths) (s : Stack) : Prop where
  leases : leases s.sessions.calls =
    (sdkLeases s.authenticator.calls).map (Lease.Event.map Int32.toInt)
  /-- Every session of the cache was opened for its identity. -/
  entries : ∀ id e, s.sessions.cache.lookup id = some e → ∃ c userId, c.identity = id ∧
    e.token = userId.toInt ∧ LoggedInAs s.authenticator.calls (loginInfo widths c) userId
  error : s.authenticator.lastError = errorAfter 0 s.authenticator.calls
  told : ∀ info userId, .loginV40 info userId ∈ s.authenticator.calls →
    ∃ c, info = loginInfo widths c

theorem InStep.start : InStep widths {} where
  leases := rfl
  entries id e h := by cases h
  error := rfl
  told info userId h := by cases h

theorem stack_stepped (h : (stack widths idleTimeout).step r s = some s') :
    (sessions idleTimeout).step (r.request widths) s.sessions = some s'.sessions ∧
      s'.authenticator = {
        lastError := errorAfter s.authenticator.lastError
          (((r.request widths).calls idleTimeout s.sessions).flatMap (carried widths r.sdk))
        calls := s.authenticator.calls ++
          ((r.request widths).calls idleTimeout s.sessions).flatMap (carried widths r.sdk) } := by
  obtain ⟨sessions, hs, rfl⟩ := Option.map_eq_some_iff.mp h
  exact ⟨hs, foldl_obey _ _⟩

theorem mem_carried_login {info : NetDvrUserLoginInfo} {userId : Int32} {c : AuthCall} {sdk : Sdk}
    (h : .loginV40 info userId ∈ carried widths sdk c) : ∃ credentials token,
      c = .login credentials token ∧ info = loginInfo widths credentials ∧
        userId = sdk.loginV40 (loginInfo widths credentials) := by
  cases c with
  | login credentials token =>
    refine ⟨credentials, token, rfl, ?_⟩
    rcases List.mem_cons.mp h with h | h
    · exact SdkCall.loginV40.inj h
    · split at h <;> simp at h
  | logout token =>
    simp only [carried] at h
    split at h <;> simp at h

/-- A request logs in under none of the tokens that its sweep keeps. -/
theorem login_new {r : Request} {s s' : Sessions} (ha : Accounts s)
    (hs : (sessions idleTimeout).step r s = some s') {c : Credentials} {token : SessionToken}
    (hc : .login c token ∈ r.calls idleTimeout s) {id : CameraIdentity} {e : Entry}
    (he : (sweepIdle idleTimeout r.env.sweepNow s.cache).1.lookup id = some e) :
    token ≠ e.token := by
  have hswept := ha.sweep idleTimeout r.env.sweepNow
  have hpos : 0 ≤ e.token := hswept.opened id e he
  have hlive : e.token ∈
      liveTokens (s.calls ++ (sweepIdle idleTimeout r.env.sweepNow s.cache).2) :=
    hswept.live.mem_iff.mpr (List.mem_map.mpr ⟨e, Table.mem_values.mpr ⟨id, he⟩, rfl⟩)
  obtain ⟨hfresh, -⟩ := stepped hs
  have hsweeps : .login c token ∉ (sweepIdle idleTimeout r.env.sweepNow s.cache).2 := by
    intro hmem
    obtain ⟨e', -, hlogout⟩ := List.mem_map.mp hmem
    cases hlogout
  rw [Request.calls] at hc hfresh
  rcases ensureLoggedIn_cases idleTimeout r.env r.credentials s.cache with ⟨e', -, heq⟩ | ⟨-, heq⟩
  · rw [heq] at hc
    exact absurd hc hsweeps
  · rw [heq] at hc hfresh
    obtain ⟨rfl, rfl⟩ : c = r.credentials ∧ token = r.env.login r.credentials := by
      have hlast := (List.mem_append.mp hc).resolve_left hsweeps
      exact AuthCall.login.inj (List.mem_singleton.mp hlast)
    by_cases hneg : r.env.login r.credentials < 0
    · exact fun he => Int.not_lt.mpr hpos (he ▸ hneg)
    · have hone : leases [.login r.credentials (r.env.login r.credentials)] =
          [.grant (r.env.login r.credentials)] := by simp [leases, AuthCall.lease, hneg]
      rw [leases_append, Lease.fresh_append, ← liveTokens_append, hone] at hfresh
      rintro he
      exact hfresh.2.1 (he ▸ hlive)

/-- Every call of a request carries what the SDK answers. -/
theorem InStep.faithful (hi : InStep widths s) (ha : Accounts s.sessions) :
    ∀ c ∈ (r.request widths).calls idleTimeout s.sessions, Faithful widths r.sdk c := by
  have hswept : ∀ c ∈ (sweepIdle idleTimeout r.sweepNow s.sessions.cache).2,
      Faithful widths r.sdk c := by
    intro c hc
    obtain ⟨e, he, rfl⟩ := List.mem_map.mp hc
    obtain ⟨id, hid⟩ := Table.mem_values.mp (List.mem_of_mem_filter he)
    obtain ⟨-, userId, -, htoken, -⟩ := hi.entries id e hid
    exact ⟨userId, htoken, ha.opened id e hid⟩
  intro c hc
  rw [Request.calls] at hc
  rcases ensureLoggedIn_cases idleTimeout (r.request widths).env (r.request widths).credentials
    s.sessions.cache with ⟨e, -, he⟩ | ⟨-, he⟩
  · rw [he] at hc
    exact hswept c hc
  · rw [he] at hc
    rcases List.mem_append.mp hc with hc | hc
    · exact hswept c hc
    · rw [List.mem_singleton.mp hc]
      exact login_request widths r _

/-- The sessions that a sweep leaves are still those of their identities. -/
theorem InStep.swept (hi : InStep widths s) (ha : Accounts s.sessions)
    (h : (stack widths idleTimeout).step r s = some s') {id : CameraIdentity} {e : Entry}
    (he : (sweepIdle idleTimeout r.sweepNow s.sessions.cache).1.lookup id = some e) :
    ∃ c userId, c.identity = id ∧ e.token = userId.toInt ∧
      LoggedInAs s'.authenticator.calls (loginInfo widths c) userId := by
  obtain ⟨hs, hauth⟩ := stack_stepped h
  obtain ⟨c, userId, hc, htoken, has⟩ := hi.entries id e (lookup_swept.mp he).1
  rw [hauth]
  refine ⟨c, userId, hc, htoken, has.append fun info' hmem => ?_⟩
  obtain ⟨call, hcall, hcarried⟩ := List.mem_flatMap.mp hmem
  obtain ⟨credentials, token, rfl, -, rfl⟩ := mem_carried_login hcarried
  have hlogin : token = _ := hi.faithful ha _ hcall
  exact login_new ha hs hcall he (hlogin.trans htoken.symm)

theorem InStep.step (hi : InStep widths s) (ha : Accounts s.sessions)
    (h : (stack widths idleTimeout).step r s = some s') : InStep widths s' := by
  obtain ⟨hs, hauth⟩ := stack_stepped h
  obtain ⟨-, hsessions⟩ := stepped hs
  have hcalls : s'.sessions.calls =
      s.sessions.calls ++ (r.request widths).calls idleTimeout s.sessions := by rw [hsessions]
  constructor
  · rw [hcalls, hauth, leases_append, hi.leases, leases_carried (hi.faithful ha), sdkLeases,
      sdkLeases, sdkLeases, List.filterMap_append, List.map_append]
  · intro id e he
    rw [hsessions] at he
    rcases ensureLoggedIn_cases idleTimeout (r.request widths).env (r.request widths).credentials
      s.sessions.cache with ⟨e', he', heq⟩ | ⟨hnone, heq⟩
    · rw [heq, Table.lookup_insert_eq] at he
      split at he
      · next hid =>
        obtain rfl := Option.some.inj he
        exact hi.swept (e := e') ha h (hid ▸ he')
      · exact hi.swept ha h he
    · rw [heq] at he
      dsimp only at he
      split at he
      · exact hi.swept ha h he
      · rw [Table.lookup_insert_eq] at he
        split at he
        · next hid =>
          obtain rfl := Option.some.inj he
          refine ⟨r.credentials, _, hid.symm, rfl, ?_⟩
          rw [hauth, Request.calls, heq, List.flatMap_append, ← List.append_assoc,
            List.flatMap_singleton]
          refine ⟨_, _, rfl, fun info' hmem => ?_⟩
          split at hmem <;> simp at hmem
        · exact hi.swept ha h he
  · rw [hauth, hi.error]
    exact (errorAfter_append 0 _ _).symm
  · intro info userId hmem
    rw [hauth] at hmem
    rcases List.mem_append.mp hmem with hmem | hmem
    · exact hi.told info userId hmem
    · obtain ⟨c, -, hc⟩ := List.mem_flatMap.mp hmem
      obtain ⟨credentials, token, -, hinfo, -⟩ := mem_carried_login hc
      exact ⟨credentials, hinfo⟩

theorem inStep (h : (stack widths idleTimeout).Reachable {} s) :
    Accounts s.sessions ∧ InStep widths s := by
  refine h.invariant (I := fun s => Accounts s.sessions ∧ InStep widths s)
    ⟨Accounts.start, InStep.start⟩ fun r s s' hi hs => ?_
  exact ⟨hi.1.step (stack_stepped hs).1, hi.2.step hi.1 hs⟩

theorem toInt_injective : Function.Injective Int32.toInt := fun _ _ h => Int32.toInt_inj.mp h

/-- What the SDK has open, under the names of the cache. -/
theorem InStep.live (hi : InStep widths s) : liveTokens s.sessions.calls =
    (liveIds s.authenticator.calls).map Int32.toInt := by
  rw [liveTokens, hi.leases, liveIds]
  exact Lease.after_map toInt_injective [] _

theorem InStep.sound (hi : InStep widths s) (ha : Accounts s.sessions) :
    Lease.Sound [] (sdkLeases s.authenticator.calls) := by
  have hs := ha.sound
  rw [hi.leases] at hs
  exact (Lease.sound_map toInt_injective [] _).mp hs

/-- The login says which camera it is for. -/
def Names (widths : LoginInfoWidths) (info : NetDvrUserLoginInfo) (id : CameraIdentity) : Prop :=
  ∃ c : Credentials, c.identity = id ∧ info = loginInfo widths c

/-- The texts of the identity fit their fields. -/
def FitsInfo (widths : LoginInfoWidths) (id : CameraIdentity) : Prop :=
  FitsBuffer widths.deviceAddress id.ip ∧ FitsBuffer widths.userName id.user

/-- One camera only, among those whose texts fit. -/
theorem Names.unique {info : NetDvrUserLoginInfo} {id id' : CameraIdentity}
    (h : Names widths info id) (h' : Names widths info id') (hfits : FitsInfo widths id)
    (hfits' : FitsInfo widths id') : id = id' := by
  obtain ⟨c, rfl, rfl⟩ := h
  obtain ⟨c', rfl, he⟩ := h'
  have hip : c.ip = c'.ip := strncpy_inj hfits.1 hfits'.1 (congrArg (·.sDeviceAddress) he)
  have hport : c.port = c'.port := congrArg (·.wPort) he
  have huser : c.user = c'.user := strncpy_inj hfits.2 hfits'.2 (congrArg (·.sUserName) he)
  rw [Credentials.identity, Credentials.identity, hip, hport, huser]

/-- A buffer of its size with a terminator. -/
def Terminated (size : ℕ) (b : Bytes) : Prop := b.length = size ∧ 0 ∈ b

theorem terminated_strncpy {size : ℕ} (h : 0 < size) (text : String) :
    Terminated size (strncpy size text) := by
  have hle : ((cString text).take (size - 1)).length ≤ size - 1 := List.length_take_le _ _
  refine ⟨length_strncpy h text, List.mem_append_right _ (List.mem_replicate.mpr ⟨?_, rfl⟩)⟩
  omega

/-- What a request of a run leaves between the cache and the SDK. -/
structure SdkAccounted (widths : LoginInfoWidths) (idleTimeout : Int)
    (t : Transition Stack SdkRequest) : Prop where
  /-- The SDK has the sessions of the cache open, and no others. -/
  live : (liveIds t.post.authenticator.calls).Nodup ∧
    ((liveIds t.post.authenticator.calls).map Int32.toInt).Perm
      (t.post.sessions.cache.values.map (·.token))
  logout_live : ∀ before userId later,
    t.post.authenticator.calls = before ++ .logoutV30 userId :: later → userId ∈ liveIds before
  terminated : ∀ info userId, .loginV40 info userId ∈ t.post.authenticator.calls →
    Terminated widths.deviceAddress info.sDeviceAddress ∧
      Terminated widths.userName info.sUserName ∧ Terminated widths.password info.sPassword
  /-- A session that is handed out was opened for the camera that it is handed out for. -/
  own : 0 ≤ (t.action.request widths).result idleTimeout t.pre.sessions →
    ∃ info userId, (t.action.request widths).result idleTimeout t.pre.sessions = userId.toInt ∧
      userId ∈ liveIds t.post.authenticator.calls ∧
      LoggedInAs t.post.authenticator.calls info userId ∧
      Names widths info t.action.credentials.identity ∧
      ∀ id, Names widths info id → FitsInfo widths id →
        FitsInfo widths t.action.credentials.identity → id = t.action.credentials.identity
  /-- A refusal leaves the error of the login that was refused. -/
  refused : (t.action.request widths).result idleTimeout t.pre.sessions < 0 →
    ∃ before userId, t.post.authenticator.calls =
        before ++ [.loginV40 (loginInfo widths t.action.credentials) userId,
          .getLastError t.action.sdk.getLastError] ∧
      (t.action.request widths).result idleTimeout t.pre.sessions = userId.toInt ∧
      t.post.authenticator.lastError = t.action.sdk.getLastError.toInt32

/-- A refused request has asked the camera last. -/
theorem refused_calls (ha : Accounts s.sessions) (h : (stack widths idleTimeout).step r s = some s')
    (hneg : (r.request widths).result idleTimeout s.sessions < 0) :
    ∃ before userId, s'.authenticator.calls =
        before ++ [.loginV40 (loginInfo widths r.credentials) userId,
          .getLastError r.sdk.getLastError] ∧
      (r.request widths).result idleTimeout s.sessions = userId.toInt ∧
      s'.authenticator.lastError = r.sdk.getLastError.toInt32 := by
  obtain ⟨-, hauth⟩ := stack_stepped h
  rw [Request.result] at hneg ⊢
  rw [Request.calls] at hauth
  rcases ensureLoggedIn_cases idleTimeout (r.request widths).env (r.request widths).credentials
    s.sessions.cache with ⟨e, he, heq⟩ | ⟨hnone, heq⟩
  · rw [heq] at hneg
    exact absurd hneg (Int.not_lt.mpr (ha.opened _ e (lookup_swept.mp he).1))
  · rw [heq] at hneg hauth ⊢
    have hid : r.sdk.loginV40 (loginInfo widths r.credentials) < 0 := (toInt_neg_iff _).mp hneg
    have hlast : carried widths r.sdk (.login r.credentials
        ((r.request widths).env.login r.credentials)) =
        [.loginV40 (loginInfo widths r.credentials)
            (r.sdk.loginV40 (loginInfo widths r.credentials)),
          .getLastError r.sdk.getLastError] := by
      rw [carried, if_pos hid]
    have hcalls : ((sweepIdle idleTimeout r.sweepNow s.sessions.cache).2 ++
        [AuthCall.login r.credentials ((r.request widths).env.login r.credentials)]).flatMap
          (carried widths r.sdk) =
        (sweepIdle idleTimeout r.sweepNow s.sessions.cache).2.flatMap (carried widths r.sdk) ++
          [.loginV40 (loginInfo widths r.credentials)
            (r.sdk.loginV40 (loginInfo widths r.credentials)),
          .getLastError r.sdk.getLastError] := by
      rw [List.flatMap_append, List.flatMap_singleton, hlast]
    have hauth : s'.authenticator = _ := hauth.trans (congrArg (fun calls : List SdkCall =>
      ({ lastError := errorAfter s.authenticator.lastError calls
         calls := s.authenticator.calls ++ calls } : HCNetSDKAuthenticator)) hcalls)
    refine ⟨s.authenticator.calls ++ (sweepIdle idleTimeout r.sweepNow s.sessions.cache).2.flatMap
      (carried widths r.sdk), _, ?_, rfl, ?_⟩
    · exact (congrArg HCNetSDKAuthenticator.calls hauth).trans (List.append_assoc _ _ _).symm
    · exact (congrArg HCNetSDKAuthenticator.lastError hauth).trans (errorAfter_append _ _ _)

/-- **The sessions of the SDK.** Every request of every run leaves the SDK with the sessions of
the cache, each opened with the texts of its own camera. -/
theorem sdk_accounted {newer older : List (Transition Stack SdkRequest)}
    {t : Transition Stack SdkRequest}
    (h : (stack widths idleTimeout).Run {} (newer ++ t :: older) s) :
    SdkAccounted widths idleTimeout t := by
  obtain ⟨hrun, hstep⟩ := h.split
  obtain ⟨hpre, hinpre⟩ := inStep hrun.reachable
  obtain ⟨hpost, hin⟩ := inStep (hrun.reachable.next hstep)
  constructor
  · rw [← hin.live]
    exact ⟨Lease.nodup_after List.nodup_nil (hin.sound hpost), hpost.live⟩
  · intro before userId later hcalls
    have hsound := hin.sound hpost
    rw [hcalls, sdkLeases, List.filterMap_append, Lease.sound_append] at hsound
    exact hsound.2.1
  · intro info userId hmem
    obtain ⟨c, rfl⟩ := hin.told info userId hmem
    exact ⟨terminated_strncpy widths.deviceAddress_pos _,
      terminated_strncpy widths.userName_pos _, terminated_strncpy widths.password_pos _⟩
  · intro hres
    rcases result_step hpre (stack_stepped hstep).1 with ⟨hneg, -⟩ | ⟨-, e, he, htoken⟩
    · exact absurd hneg (Int.not_lt.mpr hres)
    · obtain ⟨c, userId, hc, huser, has⟩ := hin.entries _ e he
      have hnames : Names widths (loginInfo widths c) t.action.credentials.identity := ⟨c, hc, rfl⟩
      have hlive : userId ∈ liveIds t.post.authenticator.calls := by
        have hcached : e.token ∈ liveTokens t.post.sessions.calls :=
          hpost.live.mem_iff.mpr (List.mem_map.mpr ⟨e, Table.mem_values.mpr ⟨_, he⟩, rfl⟩)
        rw [hin.live, huser] at hcached
        exact (List.mem_map_of_injective toInt_injective).mp hcached
      refine ⟨_, userId, htoken.symm.trans huser, hlive, has, hnames, fun id hid hfits hown => ?_⟩
      exact hid.unique hnames hfits hown
  · exact refused_calls hpre hstep

namespace Sample

def sdkWidths : LoginInfoWidths where
  deviceAddress := 129
  userName := 64
  password := 64
  deviceAddress_pos := by decide
  userName_pos := by decide
  password_pos := by decide

def camera (ip : String) : Credentials := { ip, user := "admin", pass := "" }

/-- A camera is asked for again after the timeout, and then refuses. -/
def refusal : List SdkRequest :=
  [⟨0, 0, ⟨fun _ => 7, 0⟩, camera "10.0.0.1"⟩, ⟨400, 400, ⟨fun _ => 8, 0⟩, camera "10.0.0.1"⟩,
    ⟨500, 500, ⟨fun _ => -1, 5⟩, camera "10.0.0.2"⟩]

end Sample

theorem sdk_accounted_refusal :
    ∃ h : ((stack Sample.sdkWidths 300).replay {} Sample.refusal).isSome = true,
      (((stack Sample.sdkWidths 300).replay {} Sample.refusal).get h).2.authenticator.lastError = 5 ∧
      ∀ newer t older, (((stack Sample.sdkWidths 300).replay {} Sample.refusal).get h).1 =
        newer ++ t :: older → SdkAccounted Sample.sdkWidths 300 t := by
  have hsome : ((stack Sample.sdkWidths 300).replay {} Sample.refusal).isSome = true := by decide
  refine ⟨hsome, by decide +revert, fun newer t older he => ?_⟩
  have hrun := System.run_get hsome
  rw [he] at hrun
  exact sdk_accounted hrun

end LoginUseCase

end VisionPlayback
