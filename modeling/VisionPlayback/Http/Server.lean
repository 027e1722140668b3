import VisionPlayback.Http.Daemon
import VisionPlayback.Lib.Router

/-!
# The HTTP server in front of the daemon

The route table of `started`, what each route writes, and the daemon driven by raw
requests. A request comes with its path and query as they stand in the link. The
headers are those the listener sets; a request that fits no route is answered by the
server itself, which runs no middleware then.
-/

namespace VisionPlayback

open Lib Lib.Router

/-- `QHttpServerRequest::Method`. -/
inductive Method
  | get | put | delete | post | head | options | patch | connect | trace | unknown
  deriving DecidableEq

/-- What is read from the texts of a link; a text without an escape stands for itself. -/
structure Decoder where
  /-- `QUrl::path`. -/
  path : String → String
  /-- A key or a value of a `QUrlQuery`. -/
  item : String → String
  /-- `QString::toInt`. -/
  toInt : String → Option Int32
  path_plain : ∀ s, '%' ∉ s.toList → path s = s
  item_plain : ∀ s, '%' ∉ s.toList → item s = s

structure HttpRequest where
  method : Method
  path : String
  query : String := ""
  apiKey : Bytes := []
  body : Option (Table String JsonValue) := none

namespace HttpRequest

/-- The items of a query, cut at `&` and at their first `=`. -/
def queryItems (dec : Decoder) (r : HttpRequest) : List (String × String) :=
  (r.query.toList.splitOn '&').map fun item =>
    (dec.item (String.ofList (item.takeWhile (· ≠ '='))),
      dec.item (String.ofList ((item.dropWhile (· ≠ '=')).drop 1)))

def queryItemValue (dec : Decoder) (key : String) (r : HttpRequest) : Option String :=
  ((r.queryItems dec).find? (·.1 = key)).map (·.2)

def intItem (dec : Decoder) (key : String) (r : HttpRequest) : QueryItem :=
  match r.queryItemValue dec key with
  | none => .absent
  | some text =>
    match dec.toInt text with
    | none => .notInt
    | some v => .int v

def components (dec : Decoder) (r : HttpRequest) : List (List Char) :=
  (dec.path r.path).toList.splitOn '/'

end HttpRequest

/-! ## The route table -/

/-- The components of a path pattern. The expression made of it ends in `$`, which also
matches before one final newline. -/
def pathPattern (pattern : String) : List (Component Char) :=
  let cs := pattern.toList.splitOn '/'
  cs.zipIdx.map fun (c, i) =>
    if c = "<arg>".toList then .arg
    else if i + 1 = cs.length then .fixed [c, c ++ ['\n']]
    else .fixed [c]

inductive Route
  | preflight | playbackPost | playbackGet | dash | download
  deriving DecidableEq

def routes : List (Rule Method Char Route) :=
  [⟨.options, pathPattern "/playback", .preflight⟩,
    ⟨.options, pathPattern "/dash/<arg>/<arg>", .preflight⟩,
    ⟨.options, pathPattern "/download/<arg>", .preflight⟩,
    ⟨.post, pathPattern "/playback", .playbackPost⟩,
    ⟨.get, pathPattern "/playback", .playbackGet⟩,
    ⟨.get, pathPattern "/dash/<arg>/<arg>", .dash⟩,
    ⟨.get, pathPattern "/download/<arg>", .download⟩]

/-- A route with the arguments of a request. -/
inductive Endpoint
  | preflight
  | playbackPost
  | playbackGet
  | dash (key file : String)
  | download (hash : String)
  deriving DecidableEq

def Route.endpoint : Route → List (List Char) → Option Endpoint
  | .preflight, _ => some .preflight
  | .playbackPost, [] => some .playbackPost
  | .playbackGet, [] => some .playbackGet
  | .dash, [key, file] => some (.dash (String.ofList key) (String.ofList file))
  | .download, [hash] => some (.download (String.ofList hash))
  | _, _ => none

def endpoint (dec : Decoder) (r : HttpRequest) : Option Endpoint :=
  (route routes r.method (r.components dec)).bind fun (rt, args) => rt.endpoint args

theorem unambiguous_routes : Unambiguous routes := by
  unfold Unambiguous
  decide

/-! ## Responses as they are written -/

abbrev Headers := List (String × String)

structure Written where
  response : Response
  headers : Headers
  deriving DecidableEq

def contentTypeHeader (contentType : String) : Headers :=
  if contentType = "" then [] else [("content-type", contentType)]

/-- The middleware, which runs after a route that returns its response. -/
def afterRequest (response : Response) : Written where
  response
  headers := contentTypeHeader response.contentType ++
    [("access-control-allow-origin", "*"),
      ("access-control-allow-methods", "GET, POST, OPTIONS"),
      ("access-control-allow-headers", "Content-Type, X-API-Key")]

def corsHeaders (contentType : String) : Headers :=
  [("content-type", contentType), ("access-control-allow-origin", "*")]

/-- A response that is written to its responder, past the middleware. -/
def writeResponder (response : Response) : Written where
  response
  headers := corsHeaders response.contentType ++
    (response.disposition.map (("content-disposition", ·))).toList

def notFound : Written := ⟨{ status := 404 }, []⟩

namespace Endpoint

/-- What is written at once; a download that is accepted is answered later. -/
def respond (dec : Decoder) (cfg : DaemonConfig) (r : HttpRequest) (d : Daemon) :
    Endpoint → Option Written
  | .preflight => some (afterRequest { status := 204 })
  | .playbackPost =>
    some (afterRequest (Listener.handlePlaybackPost cfg.http r.apiKey r.body).1)
  | .playbackGet =>
    some (afterRequest
      (Listener.handlePlaybackGet ((r.queryItemValue dec "id").getD "") d.listener))
  | .dash key file => some (afterRequest (Listener.serveStaticFile key file d.machine.disk))
  | .download hash =>
    match Listener.checkDownload hash (r.intItem dec "start") (r.intItem dec "end") with
    | .error response => some (writeResponder response)
    | .ok _ => none

def action (dec : Decoder) (r : HttpRequest) : Endpoint → Option Daemon.Action
  | .preflight | .playbackGet => none
  | .playbackPost => some (.playbackPost r.apiKey r.body)
  | .dash key file => some (.dashGet key file)
  | .download hash => some (.downloadGet hash (r.intItem dec "start") (r.intItem dec "end"))

def step (dec : Decoder) (cfg : DaemonConfig) (r : HttpRequest) (d : Daemon) (e : Endpoint) :
    Option Daemon :=
  match e.action dec r with
  | none => some d
  | some a => Daemon.step cfg a d

end Endpoint

/-! ## The server as a transition system -/

/-- Where a response was written. -/
inductive Origin
  /-- By the server, for a request that fits no route. -/
  | unmatched
  | endpoint (e : Endpoint)
  | responder (n : Nat)
  deriving DecidableEq

structure Server where
  daemon : Daemon
  /-- What was written, newest first; no step reads it. -/
  log : List (Origin × Written) := []

namespace Server

inductive Action
  | request (r : HttpRequest)
  | deliver
  | work (a : Machine.Action)

/-- The replies that a step has added. -/
def newReplies (d d' : Daemon) : List Reply := d'.replies.take (d'.replies.length - d.replies.length)

def step (dec : Decoder) (cfg : DaemonConfig) : Action → Server → Option Server
  | .request r, s =>
    match endpoint dec r with
    | none => some { s with log := (.unmatched, notFound) :: s.log }
    | some e => (e.step dec cfg r s.daemon).map fun daemon =>
        { daemon
          log := ((e.respond dec cfg r s.daemon).map (Origin.endpoint e, ·)).toList ++ s.log }
  | .deliver, s => (Daemon.step cfg .deliver s.daemon).map fun daemon =>
      { daemon
        log := (newReplies s.daemon daemon).map
          (fun reply => (.responder reply.responder, writeResponder reply.response)) ++ s.log }
  | .work a, s => (Daemon.step cfg (.work a) s.daemon).map fun daemon => { s with daemon }

def system (dec : Decoder) (cfg : DaemonConfig) : System Server Action := ⟨step dec cfg⟩

def start (disk : Disk) : Server := { daemon := Daemon.start disk }

/-! ## What each step can do -/

inductive Stepped (dec : Decoder) (cfg : DaemonConfig) (s : Server) : Action → Server → Prop
  | unmatched {r : HttpRequest} (he : endpoint dec r = none) :
      Stepped dec cfg s (.request r) { s with log := (.unmatched, notFound) :: s.log }
  | routed {r : HttpRequest} {e : Endpoint} {daemon : Daemon} (he : endpoint dec r = some e)
      (hs : e.step dec cfg r s.daemon = some daemon) :
      Stepped dec cfg s (.request r)
        { daemon
          log := ((e.respond dec cfg r s.daemon).map (Origin.endpoint e, ·)).toList ++ s.log }
  | delivered {daemon : Daemon} (hs : Daemon.step cfg .deliver s.daemon = some daemon) :
      Stepped dec cfg s .deliver
        { daemon
          log := (newReplies s.daemon daemon).map
            (fun reply => (.responder reply.responder, writeResponder reply.response)) ++ s.log }
  | worked {a : Machine.Action} {daemon : Daemon}
      (hs : Daemon.step cfg (.work a) s.daemon = some daemon) :
      Stepped dec cfg s (.work a) { s with daemon }

variable {dec : Decoder} {cfg : DaemonConfig} {s s' : Server}

theorem stepped {a : Action} (h : step dec cfg a s = some s') : Stepped dec cfg s a s' := by
  cases a with
  | request r =>
    simp only [step] at h
    cases he : endpoint dec r with
    | none =>
      rw [he] at h
      obtain rfl := Option.some.inj h
      exact .unmatched he
    | some e =>
      rw [he] at h
      obtain ⟨daemon, hs, rfl⟩ := Option.map_eq_some_iff.mp h
      exact .routed he hs
  | deliver =>
    obtain ⟨daemon, hs, rfl⟩ := Option.map_eq_some_iff.mp h
    exact .delivered hs
  | work a =>
    obtain ⟨daemon, hs, rfl⟩ := Option.map_eq_some_iff.mp h
    exact .worked hs

/-- A request is at most one step of the daemon, so what holds in every run of the daemon
holds behind the server. -/
theorem simulates (dec : Decoder) (cfg : DaemonConfig) :
    (system dec cfg).Simulates (Daemon.system cfg) (·.daemon) := by
  intro a s s' h
  cases stepped h with
  | unmatched he => exact Or.inl rfl
  | @routed r e daemon he hs =>
    rw [Endpoint.step] at hs
    cases ha : e.action dec r with
    | none =>
      rw [ha] at hs
      exact Or.inl (Option.some.inj hs).symm
    | some a =>
      rw [ha] at hs
      exact Or.inr ⟨a, hs⟩
  | delivered hs => exact Or.inr ⟨.deliver, hs⟩
  | worked hs => exact Or.inr ⟨.work _, hs⟩

end Server

/-! ## Pages of other origins -/

/-- The values of a header. -/
def Headers.values (name : String) (headers : Headers) : List String :=
  (headers.filter (·.1 = name)).map (·.2)

/-- The words of a comma-separated header. -/
def headerWords (text : String) : List String :=
  (text.toList.splitOn ',').map fun word => String.ofList (word.dropWhile (· = ' '))

def Method.name : Method → String
  | .get => "GET"
  | .put => "PUT"
  | .delete => "DELETE"
  | .post => "POST"
  | .head => "HEAD"
  | .options => "OPTIONS"
  | .patch => "PATCH"
  | .connect => "CONNECT"
  | .trace => "TRACE"
  | .unknown => ""

namespace Written

/-- A page of any origin may read the response: the header is there, and only once. -/
def Shared (w : Written) : Prop := Headers.values "access-control-allow-origin" w.headers = ["*"]

/-- The answer to a preflight lets a page send a request of the method, with a JSON body and
an API key. -/
structure Permits (w : Written) (method : Method) : Prop where
  ok : w.response.status = 204
  shared : w.Shared
  methods : ∃ text, Headers.values "access-control-allow-methods" w.headers = [text] ∧
    method.name ∈ headerWords text
  headers : ∃ text, Headers.values "access-control-allow-headers" w.headers = [text] ∧
    "Content-Type" ∈ headerWords text ∧ "X-API-Key" ∈ headerWords text

theorem shared_afterRequest (response : Response) : (afterRequest response).Shared := by
  have hnone : (contentTypeHeader response.contentType).filter
      (·.1 = "access-control-allow-origin") = [] := by
    unfold contentTypeHeader
    split <;> simp
  simp [Shared, Headers.values, afterRequest, hnone]

theorem shared_writeResponder (response : Response) : (writeResponder response).Shared := by
  have hnone : (response.disposition.map (("content-disposition", ·))).toList.filter
      (·.1 = "access-control-allow-origin") = [] := by
    cases response.disposition <;> simp
  simp [Shared, Headers.values, writeResponder, corsHeaders, hnone]

theorem not_shared_notFound : ¬ notFound.Shared := by
  unfold Shared
  decide

theorem permits_preflight {method : Method} (h : method ∈ [.options, .post, .get]) :
    (afterRequest { status := 204 }).Permits method where
  ok := rfl
  shared := shared_afterRequest _
  methods := by
    refine ⟨"GET, POST, OPTIONS", by decide, ?_⟩
    revert h
    cases method <;> decide
  headers := ⟨"Content-Type, X-API-Key", by decide, by decide, by decide⟩

end Written

namespace Server

variable {dec : Decoder} {cfg : DaemonConfig} {s s' : Server}

/-- The endpoint of a request is the one of the only rule that fits it. -/
theorem endpoint_eq_some_iff {r : HttpRequest} {e : Endpoint} : endpoint dec r = some e ↔
    ∃ rule ∈ routes, ∃ args, rule.verb = r.method ∧ Fits rule.pattern (r.components dec) args ∧
      rule.target.endpoint args = some e := by
  rw [endpoint, Option.bind_eq_some_iff]
  constructor
  · intro ⟨(rt, args), hroute, he⟩
    obtain ⟨rule, hrule, hverb, rfl, hfits⟩ := (route_eq_some_iff unambiguous_routes).mp hroute
    exact ⟨rule, hrule, args, hverb, hfits, he⟩
  · intro ⟨rule, hrule, args, hverb, hfits, he⟩
    exact ⟨(rule.target, args),
      (route_eq_some_iff unambiguous_routes).mpr ⟨rule, hrule, hverb, rfl, hfits⟩, he⟩

/-- Every path of the table has its preflight route. -/
theorem preflight_of_mem : ∀ rule ∈ routes, rule.verb ∈ [.options, .post, .get] ∧
    ∃ rule' ∈ routes, rule'.verb = .options ∧ rule'.pattern = rule.pattern ∧
      rule'.target = .preflight := by
  decide

theorem endpoint_preflight {r : HttpRequest} {e : Endpoint} (h : endpoint dec r = some e) :
    r.method ∈ [.options, .post, .get] ∧
      endpoint dec { r with method := .options } = some .preflight := by
  obtain ⟨rule, hrule, args, hverb, hfits, -⟩ := endpoint_eq_some_iff.mp h
  obtain ⟨hmethod, rule', hrule', hoptions, hpattern, htarget⟩ := preflight_of_mem rule hrule
  refine ⟨hverb ▸ hmethod, endpoint_eq_some_iff.mpr ⟨rule', hrule', args, hoptions, ?_, ?_⟩⟩
  · rw [hpattern]
    exact hfits
  · rw [htarget]
    rfl

theorem shared_respond {r : HttpRequest} {d : Daemon} {e : Endpoint} {w : Written}
    (h : e.respond dec cfg r d = some w) : w.Shared := by
  cases e with
  | preflight | playbackPost | playbackGet | dash =>
    obtain rfl := Option.some.inj h
    exact Written.shared_afterRequest _
  | download hash =>
    simp only [Endpoint.respond] at h
    cases hcheck : Listener.checkDownload hash (r.intItem dec "start") (r.intItem dec "end") with
    | error response =>
      rw [hcheck] at h
      obtain rfl := Option.some.inj h
      exact Written.shared_writeResponder response
    | ok request => rw [hcheck] at h; cases h

/-- What is in the log: the server's own refusals, and responses that pages may read. -/
def SharedLog (s : Server) : Prop := ∀ x ∈ s.log, x.1 ≠ .unmatched ↔ x.2.Shared

theorem SharedLog.step {a : Action} (hi : SharedLog s) (h : step dec cfg a s = some s') :
    SharedLog s' := by
  intro x hx
  cases stepped h with
  | unmatched he =>
    rcases List.mem_cons.mp hx with rfl | hx
    · exact iff_of_false (fun hne => hne rfl) Written.not_shared_notFound
    · exact hi x hx
  | routed he hs =>
    rcases List.mem_append.mp hx with hx | hx
    · obtain ⟨w, hw, rfl⟩ := Option.map_eq_some_iff.mp (Option.mem_toList.mp hx)
      exact iff_of_true nofun (shared_respond hw)
    · exact hi x hx
  | delivered hs =>
    rcases List.mem_append.mp hx with hx | hx
    · obtain ⟨reply, -, rfl⟩ := List.mem_map.mp hx
      exact iff_of_true nofun (Written.shared_writeResponder reply.response)
    · exact hi x hx
  | worked hs => exact hi x hx

/-- **Cross-origin requests.** Whatever a route writes, at once or later, may be read by pages
of any origin, and nothing else may; and every request that has a route may be sent, because
its preflight has one too, which answers at once and does nothing else. -/
theorem cross_origin {disk : Disk} (h : (system dec cfg).Reachable (start disk) s) :
    (∀ x ∈ s.log, x.1 ≠ .unmatched ↔ x.2.Shared) ∧
      ∀ r e, endpoint dec r = some e → ∃ s' w,
        step dec cfg (.request { r with method := .options }) s = some s' ∧
        s'.daemon = s.daemon ∧ s'.log = (.endpoint .preflight, w) :: s.log ∧
        w.Permits r.method := by
  constructor
  · exact h.invariant (I := SharedLog) (fun x hx => nomatch hx) fun _ _ _ hi hs => hi.step hs
  · intro r e he
    obtain ⟨hmethod, hpre⟩ := endpoint_preflight he
    refine ⟨{ s with log := (.endpoint .preflight, afterRequest { status := 204 }) :: s.log },
      _, ?_, rfl, rfl, Written.permits_preflight hmethod⟩
    simp only [step, hpre]
    rfl

namespace Sample

/-- Nothing to decode, and numbers of plain digits. -/
def decoder : Decoder where
  path s := s
  item s := s
  toInt s := s.toNat?.bind fun n => if n < 2 ^ 31 then some (Int32.ofNat n) else none
  path_plain _ _ := rfl
  item_plain _ _ := rfl

def get (path query : String) : HttpRequest := { method := .get, path, query }

def post (body : Table String JsonValue) : HttpRequest :=
  { method := .post, path := "/playback", apiKey := utf8 "key", body := some body }

/-- A recording is asked for and polled for, and its download is refused later on; then a path
that has no route. -/
def visit : List Action :=
  [.request (post Daemon.Sample.body), .work (.handle Machine.Sample.env), .deliver,
    .request (get "/playback" "id=00000000000000aa"),
    .request (get "/download/00000000000000aa" ""), .work (.handle Machine.Sample.env), .deliver,
    .request (get "/playback/" "")]

end Sample

theorem cross_origin_visit :
    ∃ h : ((system Sample.decoder Daemon.Sample.config).replay (start {}) Sample.visit).isSome = true,
      let s := (((system Sample.decoder Daemon.Sample.config).replay (start {}) Sample.visit).get h).2
      s.log.map (fun x => (x.1, x.2.response.status)) = [(.unmatched, 404), (.responder 0, 404),
        (.endpoint .playbackGet, 202), (.endpoint .playbackPost, 200)] ∧
      (∀ x ∈ s.log, x.1 ≠ .unmatched ↔ x.2.Shared) ∧
      ∃ s' w, step Sample.decoder Daemon.Sample.config
          (.request { Sample.post Daemon.Sample.body with method := .options }) s = some s' ∧
        s'.daemon = s.daemon ∧ s'.log = (.endpoint .preflight, w) :: s.log ∧ w.Permits .post := by
  have hsome : ((system Sample.decoder Daemon.Sample.config).replay (start {})
      Sample.visit).isSome = true := by decide
  obtain ⟨hshared, hpreflight⟩ := cross_origin (System.run_get hsome).reachable
  exact ⟨hsome, by clear hshared hpreflight; decide +revert, hshared, hpreflight _ .playbackPost rfl⟩

end Server

end VisionPlayback
