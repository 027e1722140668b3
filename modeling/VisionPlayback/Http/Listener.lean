import VisionPlayback.Processor.Handlers

/-!
# The HTTP listener

The routes of the listener and its two slots, on its members. A request body
comes parsed, as the object it denotes if it is one, and a query item as the
integer it reads as. Headers other than the content type and the disposition are
left out, and so is console output.
-/

namespace VisionPlayback

open Lib

inductive JsonValue
  | string (s : String)
  | number (x : Rat)
  | other
  deriving DecidableEq

/-- `QJsonValue::toInt`: `0` for what is not a whole number that fits. -/
def JsonValue.toInt : JsonValue → Int
  | .number x => if x.den = 1 ∧ -2 ^ 31 ≤ x.num ∧ x.num < 2 ^ 31 then x.num else 0
  | _ => 0

inductive Body
  | empty
  /-- An object with string members, in the order they are printed. -/
  | json (members : List (String × String))
  | bytes (data : Bytes)
  deriving DecidableEq

structure Response where
  status : Nat
  contentType : String := ""
  body : Body := .empty
  disposition : Option String := none
  deriving DecidableEq

structure PlaybackPostBody where
  credentials : Credentials
  channel : Channel
  range : TimeRange
  deriving DecidableEq

structure PendingExport where
  /-- Stands for the moved-in responder object. -/
  responder : Nat
  filename : String
  deriving DecidableEq

/-- An export the listener asks the processor for. -/
structure ExportRequest where
  hash : String
  startSec : Int
  endSec : Int
  deriving DecidableEq

/-- `hasQueryItem` and `queryItemValue(..).toInt(&ok)`. -/
inductive QueryItem
  | absent
  | notInt
  | int (v : Int32)
  deriving DecidableEq

namespace QueryItem

def has : QueryItem → Bool
  | .absent => false
  | .notInt | .int _ => true

def ok : QueryItem → Bool
  | .absent | .notInt => false
  | .int _ => true

def toInt : QueryItem → Int32
  | .absent | .notInt => 0
  | .int v => v

end QueryItem

structure Listener where
  statusCache : Table String StreamStatus := ∅
  mpdUrlCache : Table String String := ∅
  nextExportId : UInt64 := 0
  pendingExports : Table Nat PendingExport := ∅

namespace Listener

/-! ## JSON codec -/

def requireString (o : Table String JsonValue) (k : String) : Except String String :=
  match o.lookup k with
  | some (.string s) => .ok s
  | _ => .error k

def requireInt (o : Table String JsonValue) (k : String) : Except String Int :=
  match o.lookup k with
  | some (.number x) => .ok (JsonValue.number x).toInt
  | _ => .error k

/-- The error is the first missing or invalid key. -/
def parsePlaybackPostBody (body : Option (Table String JsonValue)) :
    Except String PlaybackPostBody :=
  match body with
  | none => .error "<malformed json>"
  | some o => do
    let ip ← requireString o "ip"
    let port ← requireInt o "port"
    let user ← requireString o "user"
    let pass ← requireString o "pass"
    let channel ← requireInt o "channel_id"
    let start ← requireString o "start_time"
    let stop ← requireString o "end_time"
    return {
      credentials := { ip, port := UInt16.ofInt port, user, pass }
      channel := { id := Int32.ofInt channel }
      range := {
        begin := parsePlaybackTimeCompact (utf8 start)
        end_ := parsePlaybackTimeCompact (utf8 stop) } }

def serializePollResponseReady (url : String) : Body := .json [("status", "ready"), ("url", url)]

def serializePollResponsePending : Body := .json [("status", "pending")]

def serializePollResponseUnknown : Body := .json [("status", "unknown_id")]

def serializePollUrl (pollUrl : String) : Body := .json [("poll_url", pollUrl)]

def serializeError (message : String) : Body :=
  .json [("message", message), ("status", "error")]

def json (status : Nat) (body : Body) : Response := { status, contentType := "application/json", body }

/-! ## Routes -/

/-- The shorter text is padded with zeros, and the lengths go into the accumulator. -/
def validateApiKey (expectedKey providedKey : Bytes) : Bool :=
  let n := max expectedKey.length providedKey.length
  let diff := (List.range n).foldl
    (fun diff i => diff ||| ((expectedKey.getD i 0).toUInt32 ^^^ (providedKey.getD i 0).toUInt32))
    (UInt32.ofNat (expectedKey.length ^^^ providedKey.length))
  diff == 0

structure Config where
  expectedKey : Bytes
  hostBase : String
  hasher : Hasher

def pollUrl (cfg : Config) (key : PlaybackKey) : String := cfg.hostBase ++ "/playback?id=" ++ key.hex

/-- The answer, and the request that is emitted. -/
def handlePlaybackPost (cfg : Config) (providedKey : Bytes)
    (body : Option (Table String JsonValue)) : Response × Option PlaybackRequest :=
  if !validateApiKey cfg.expectedKey providedKey then
    (json 401 (serializeError "invalid api key"), none)
  else
    match parsePlaybackPostBody body with
    | .error missingField => (json 400 (serializeError ("bad payload: " ++ missingField)), none)
    | .ok parsed =>
      let key := makePlaybackKey parsed.credentials parsed.channel parsed.range cfg.hasher
      (json 200 (serializePollUrl (pollUrl cfg key)),
        some { credentials := parsed.credentials, channel := parsed.channel,
               range := parsed.range, key })

def handlePlaybackGet (idParam : String) (l : Listener) : Response :=
  if idParam = "" then json 400 (serializeError "missing id query param")
  else
    match (l.statusCache.lookup idParam).getD .unknown with
    | .ready =>
      json 200 (serializePollResponseReady ((l.mpdUrlCache.lookup idParam).getD ""))
    | .unknown => json 404 serializePollResponseUnknown
    | .pending | .downloading | .packaging | .failed => json 202 serializePollResponsePending

/-- The file a path of two segments names below the downloads directory. A
segment has no `/` and is not empty; `.` stays where it is. -/
def openFile (dir name : String) (d : Disk) : Option File :=
  if name = "." then none
  else if dir = "." then d.raw.lookup name
  else if dir = ".exports" then (d.exports.lookup (dir ++ "/" ++ name)).map (·.file)
  else (d.dirs.lookup dir).bind (·.files.lookup name)

def mimeType (relativePath : String) : String :=
  if relativePath.endsWith ".mpd" then "application/dash+xml"
  else if relativePath.endsWith ".m4s" then "video/iso.segment"
  else if relativePath.endsWith ".mp4" then "video/mp4"
  else "application/octet-stream"

/-- `dir ++ "/" ++ name` is the relative path of the source. -/
def serveStaticFile (dir name : String) (d : Disk) : Response :=
  if ['.', '.'] <:+: (dir ++ "/" ++ name).toList then { status := 403 }
  else
    match openFile dir name d with
    | none => { status := 404 }
    | some f =>
      if !f.readable then { status := 404 }
      else { status := 200, contentType := mimeType (dir ++ "/" ++ name), body := .bytes f.content }

/-- The checks of the download route; what it asks for, and under which name. -/
def checkDownload (hash : String) (start stop : QueryItem) :
    Except Response (ExportRequest × String) :=
  let bad (message : String) : Except Response (ExportRequest × String) :=
    .error (json 400 (serializeError message))
  if !matchesHex16 hash then bad "bad hash"
  else if start.has && (!start.ok || start.toInt < 0) then bad "bad start"
  else if stop.has && (!stop.ok || stop.toInt ≤ 0) then bad "bad end"
  else if start.has && stop.has && stop.toInt ≤ start.toInt then
    bad "end must be greater than start"
  else
    let window :=
      if start.has || stop.has then
        "-" ++ toString (if start.has then start.toInt.toInt else 0) ++ "s" ++
          if stop.has then "-" ++ toString stop.toInt.toInt ++ "s" else ""
      else ""
    .ok (⟨hash, if start.has then start.toInt.toInt else -1,
        if stop.has then stop.toInt.toInt else -1⟩, "playback-" ++ hash ++ window ++ ".mp4")

/-- The id of the next export. -/
def freshExportId (l : Listener) : Nat := (l.nextExportId + 1).toNat

/-- Holds the responder under the next id. An id that is still pending keeps its
entry, and the responder that was moved in is lost. -/
def deferExport (responder : Nat) (filename : String) (l : Listener) : Listener :=
  { l with
    nextExportId := l.nextExportId + 1
    pendingExports := (Table.emplace l.freshExportId ⟨responder, filename⟩ l.pendingExports).1 }

/-! ## Slots -/

def onStatusChanged (keyHex : String) (status : StreamStatus) (url : String) (l : Listener) :
    Listener :=
  { l with
    statusCache := l.statusCache.insert keyHex status
    mpdUrlCache := if status = .ready then l.mpdUrlCache.insert keyHex url else l.mpdUrlCache }

/-- The response to a finished export. -/
def exportResponse (outputPath : String) (ok : Bool) (error : String) (filename : String)
    (d : Disk) : Response :=
  if !ok then json (if error = "not ready" then 404 else 500) (serializeError error)
  else
    match d.exports.lookup outputPath with
    | none => json 500 (serializeError "export missing")
    | some f =>
      if !f.file.readable then json 500 (serializeError "export missing")
      else
        { status := 200, contentType := "video/mp4", body := .bytes f.file.content
          disposition := some ("attachment; filename=\"" ++ filename ++ "\"") }

/-- The pending export that a finished one completes, if there is one; its
temporary file is removed unless the export failed. -/
def onExportFinished (requestId : Nat) (outputPath : String) (ok : Bool) (error : String)
    (d : Disk) (l : Listener) : Listener × Option (Nat × Response) × Option String :=
  match l.pendingExports.lookup requestId with
  | none => (l, none, none)
  | some p =>
    ({ l with pendingExports := l.pendingExports.erase requestId },
      some (p.responder, exportResponse outputPath ok error p.filename d),
      if ok then some outputPath else none)

end Listener

end VisionPlayback
