import VisionPlayback.HCNetSDKDownloader
import VisionPlayback.Http.Payload
import VisionPlayback.Http.Provenance
import VisionPlayback.KeyInput

/-!
# From the payload of a POST to the recording in a file

A recording is named three times: by the payload of a POST, by the cache key and by the
condition that the SDK is asked with. Each can be read back into the one before it.
-/

namespace VisionPlayback

open Lib StreamCache

/-- The times can be written as the payload has them. -/
structure PlaybackPostBody.Printable (b : PlaybackPostBody) : Prop where
  begin : b.range.begin.Printable
  end_ : b.range.end_.Printable

namespace Listener

/-! ## Payloads -/

/-- The payload that a client asks for a recording with. -/
def payload (b : PlaybackPostBody) : Table String JsonValue :=
  AList.insert "ip" (.string b.credentials.ip) <|
    AList.insert "port" (.number (b.credentials.port.toNat : ℤ)) <|
    AList.insert "user" (.string b.credentials.user) <|
    AList.insert "pass" (.string b.credentials.pass) <|
    AList.insert "channel_id" (.number b.channel.id.toInt) <|
    AList.insert "start_time" (.string (formatPlaybackTime b.range.begin)) <|
    AList.insert "end_time" (.string (formatPlaybackTime b.range.end_)) ∅

/-- A whole number of 32 bits is read as it is. -/
theorem toInt_number {n : ℤ} (hlo : -2 ^ 31 ≤ n) (hhi : n < 2 ^ 31) :
    (JsonValue.number (n : Rat)).toInt = n := by
  rw [JsonValue.toInt, Rat.den_intCast, Rat.num_intCast, if_pos ⟨rfl, hlo, hhi⟩]

/-- The members of a payload, in the order in which they are read. -/
theorem lookup_payload (b : PlaybackPostBody) :
    (payload b).lookup "ip" = some (.string b.credentials.ip) ∧
    (payload b).lookup "port" = some (.number (b.credentials.port.toNat : ℤ)) ∧
    (payload b).lookup "user" = some (.string b.credentials.user) ∧
    (payload b).lookup "pass" = some (.string b.credentials.pass) ∧
    (payload b).lookup "channel_id" = some (.number b.channel.id.toInt) ∧
    (payload b).lookup "start_time" = some (.string (formatPlaybackTime b.range.begin)) ∧
    (payload b).lookup "end_time" = some (.string (formatPlaybackTime b.range.end_)) := by
  simp only [payload, Table.lookup_insert_eq]
  exact ⟨rfl, rfl, rfl, rfl, rfl, rfl, rfl⟩

theorem typedIn_payload (b : PlaybackPostBody) : ∀ f ∈ fields, f.typedIn (payload b) = true := by
  obtain ⟨hip, hport, huser, hpass, hchannel, hstart, hstop⟩ := lookup_payload b
  simp only [fields, List.forall_mem_cons, Field.typedIn, passes, hip, hport, huser, hpass,
    hchannel, hstart, hstop]
  exact ⟨rfl, rfl, rfl, rfl, rfl, rfl, rfl, List.forall_mem_nil _⟩

theorem decoded_payload {b : PlaybackPostBody} (h : b.Printable) : decoded (payload b) = b := by
  obtain ⟨hip, hport, huser, hpass, hchannel, hstart, hstop⟩ := lookup_payload b
  have hsmall : b.credentials.port.toNat < 2 ^ 16 := b.credentials.port.toNat_lt
  have hportRead : (JsonValue.number ((b.credentials.port.toNat : ℤ) : Rat)).toInt =
      b.credentials.port.toNat := toInt_number (by omega) (by omega)
  have hportCast : UInt16.ofInt b.credentials.port.toNat = b.credentials.port := by
    apply UInt16.toNat_inj.mp
    rw [UInt16.ofInt, UInt16.toNat_ofNat']
    omega
  have hchannelRead : (JsonValue.number (b.channel.id.toInt : Rat)).toInt = b.channel.id.toInt :=
    toInt_number b.channel.id.le_toInt b.channel.id.toInt_lt
  simp only [decoded, stringAt, numberAt, hip, hport, huser, hpass, hchannel, hstart, hstop,
    hportRead, hportCast, hchannelRead, Int32.ofInt_toInt, parse_formatPlaybackTime h.begin,
    parse_formatPlaybackTime h.end_]

/-- What is written is read back. -/
theorem parse_payload {b : PlaybackPostBody} (h : b.Printable) :
    parsePlaybackPostBody (some (payload b)) = .ok b := by
  rw [parsePlaybackPostBody_eq, Checklist.firstFailing_eq_none.mpr (typedIn_payload b)]
  exact congrArg _ (decoded_payload h)

theorem printable_of_parse {body : Option (Table String JsonValue)} {b : PlaybackPostBody}
    (h : parsePlaybackPostBody body = .ok b) : b.Printable := by
  cases body with
  | none => cases h
  | some o =>
    rw [parsePlaybackPostBody_eq] at h
    cases hf : Checklist.firstFailing (Field.typedIn o) fields with
    | some f => rw [hf] at h; cases h
    | none =>
      rw [hf] at h
      obtain rfl := Except.ok.inj h
      exact ⟨parse_printable _, parse_printable _⟩

theorem isIntegerIn_number {lo hi n : ℤ} :
    JsonValue.isIntegerIn lo hi (.number (n : Rat)) = true ↔ lo ≤ n ∧ n ≤ hi := by
  simp only [JsonValue.isIntegerIn, Bool.and_eq_true, decide_eq_true_eq]
  rw [Rat.den_intCast, Rat.num_intCast]
  exact and_congr_left fun _ => and_iff_right rfl

/-- The schema asks for no more than a port and a channel number that are not zero. -/
theorem documentedIn_payload {b : PlaybackPostBody} (h : b.Printable) :
    (∀ f ∈ fields, f.documentedIn (payload b) = true) ↔
      b.credentials.port ≠ 0 ∧ 0 < b.channel.id.toInt := by
  obtain ⟨hip, hport, huser, hpass, hchannel, hstart, hstop⟩ := lookup_payload b
  have hsmall : b.credentials.port.toNat < 2 ^ 16 := b.credentials.port.toNat_lt
  have hchan := b.channel.id.toInt_lt
  have hzero : b.credentials.port ≠ 0 ↔ b.credentials.port.toNat ≠ 0 :=
    not_congr UInt16.toNat_inj.symm
  have hbegin : JsonValue.isTime (.string (formatPlaybackTime b.range.begin)) = true :=
    isCompactTime_formatPlaybackTime h.begin
  have hend : JsonValue.isTime (.string (formatPlaybackTime b.range.end_)) = true :=
    isCompactTime_formatPlaybackTime h.end_
  simp only [fields, List.forall_mem_cons, Field.documentedIn, passes, hip, hport, huser, hpass,
    hchannel, hstart, hstop, hbegin, hend, isIntegerIn_number, JsonValue.isString,
    List.not_mem_nil, false_implies, implies_true, true_and, and_true, hzero]
  constructor
  · rintro ⟨hp, hc⟩
    omega
  · rintro ⟨hp, hc⟩
    omega

/-- **The payload of a POST, both ways.** What a POST can ask for is what can be written as a
payload, the payload is read back, and it is answered as every other that reads the same; the
schema takes it exactly if the port and the channel number are not zero. -/
theorem payload_roundtrip (cfg : Config) (providedKey : Bytes) (b : PlaybackPostBody) :
    ((∃ body, parsePlaybackPostBody body = .ok b) ↔ b.Printable) ∧
    (∀ body, parsePlaybackPostBody body = .ok b →
      parsePlaybackPostBody (some (payload b)) = .ok b ∧
      handlePlaybackPost cfg providedKey (some (payload b)) =
        handlePlaybackPost cfg providedKey body ∧
      ((∀ f ∈ fields, f.documentedIn (payload b) = true) ↔
        b.credentials.port ≠ 0 ∧ 0 < b.channel.id.toInt)) := by
  refine ⟨⟨fun ⟨body, hb⟩ => printable_of_parse hb, fun h => ⟨_, parse_payload h⟩⟩, ?_⟩
  intro body hb
  have hprint := printable_of_parse hb
  have hread := parse_payload hprint
  refine ⟨hread, ?_, documentedIn_payload hprint⟩
  unfold handlePlaybackPost
  rw [hread, hb]

theorem payload_roundtrip_post : ∃ b, parsePlaybackPostBody (some Daemon.Sample.body) = .ok b ∧
    handlePlaybackPost Daemon.Sample.config.http (utf8 "key") (some (payload b)) =
      handlePlaybackPost Daemon.Sample.config.http (utf8 "key") (some Daemon.Sample.body) ∧
    b.Printable ∧ ∀ f ∈ fields, f.documentedIn (payload b) = true := by
  have hparse : parsePlaybackPostBody (some Daemon.Sample.body) =
      .ok (decoded Daemon.Sample.body) := rfl
  obtain ⟨hprint, hall⟩ := payload_roundtrip Daemon.Sample.config.http (utf8 "key")
    (decoded Daemon.Sample.body)
  obtain ⟨-, hsame, hschema⟩ := hall _ hparse
  exact ⟨_, hparse, hsame, hprint.mp ⟨_, hparse⟩, hschema.mpr (by decide)⟩

end Listener

/-! ## Conditions -/

/-- The text of what the SDK is asked for at an address. -/
def conditionText (address : Credentials) (cond : NetDvrPlayCond) : String :=
  keyInput address ⟨cond.dwChannel.toInt32⟩ ⟨HCNetSDKTimeMapper.toDomain cond.struStartTime,
    HCNetSDKTimeMapper.toDomain cond.struStopTime⟩

/-- What is kept of the digest of a text. -/
def shortDigest (hasher : Hasher) (text : String) : String :=
  String.ofList ((hasher.hexDigest text).toList.take 16)

namespace HCNetSDKDownloader

variable {dl dl' : HCNetSDKDownloader}

/-- The condition says all that the text of the key says. -/
theorem conditionText_cond (dl : HCNetSDKDownloader) (address : Credentials) :
    conditionText address dl.cond = keyInput address dl.request.channel dl.request.range := by
  simp [conditionText, cond]

theorem cond_eq (hchannel : dl.request.channel.id = dl'.request.channel.id)
    (hbegin : dl.request.range.begin = dl'.request.range.begin)
    (hend : dl.request.range.end_ = dl'.request.range.end_) : dl.cond = dl'.cond := by
  rw [cond, cond, hchannel, hbegin, hend]

/-- A thread asks the SDK for the recording of its request only. -/
theorem asks_for_request {tr : List (Transition Thread Action)} {u : Thread}
    (h : (system dl).Run {} tr u) {token hDl : Int32} {path : String} {c : NetDvrPlayCond}
    (hcall : .getFileByTime token path c hDl ∈ u.calls) :
    token = .ofInt dl.request.token ∧ path = dl.outputPath ∧ c = dl.cond := by
  have hother : ∀ {hDl pos : Int32}, .getFileByTime token path c hDl ∉ dl.progressed pos := by
    intro hDl pos hmem
    unfold progressed at hmem
    split at hmem <;> simp at hmem
  have hfinished : ∀ {hDl : Int32} {ok : Bool} {error : String},
      .getFileByTime token path c hDl ∉ dl.finished ok error := by
    intro hDl ok error hmem
    unfold finished at hmem
    split at hmem <;> simp at hmem
  have hpoll : ∀ {hDl hDl' pos : Int32}, .getFileByTime token path c hDl ∉ dl.poll hDl' pos := by
    intro hDl hDl' pos hmem
    unfold poll at hmem
    split at hmem
    · simp [hother] at hmem
    · simp at hmem
  induction h with
  | nil => cases hcall
  | @next tr s s' a hr hs ih =>
    cases stepped hs with
    | cancelled | testedStop | testedMore => exact ih hcall
    | openFailed | opened | playFailed | played | sampledLast | sampledMore | stopped
    | finalTested =>
      simp only [List.mem_append, List.mem_cons, List.not_mem_nil, or_false, hfinished, hpoll,
        getFileByTimeCall, Call.getFileByTime.injEq, reduceCtorEq] at hcall
      grind

end HCNetSDKDownloader

namespace Daemon

variable {cfg : DaemonConfig} {d d' : Daemon} {tr : List (Transition Daemon Action)}
  {t t' : Transition Daemon Action}

/-- A request that was posted carries the key of its own recording. -/
theorem posted_key {r : PlaybackRequest} (h : (grounds cfg tr).posted r) :
    r.key.hex = shortDigest cfg.http.hasher (keyInput r.credentials r.channel r.range) ∧
      r.range.begin.Printable ∧ r.range.end_.Printable := by
  obtain ⟨u, -, apiKey, body, -, hpost⟩ := h
  unfold Listener.handlePlaybackPost at hpost
  split at hpost
  · cases hpost
  · cases hp : Listener.parsePlaybackPostBody body with
    | error missingField => rw [hp] at hpost; cases hpost
    | ok b =>
      rw [hp] at hpost
      obtain rfl := Option.some.inj hpost
      have hprint := Listener.printable_of_parse hp
      exact ⟨rfl, hprint.begin, hprint.end_⟩

/-- A download thread of the run has asked the SDK at this address. -/
def Asks (tr : List (Transition Daemon Action)) (address : Credentials) (token : Int32)
    (path : String) (cond : NetDvrPlayCond) : Prop :=
  ∃ t ∈ tr, ∃ w, .startDownload w ∈ made t ∧ w.request.credentials = address ∧
    ∃ calls u hDl, (HCNetSDKDownloader.system (.ofWorker w)).Run {} calls u ∧
      .getFileByTime token path cond hDl ∈ u.calls

/-- What is asked goes back to a POST. -/
theorem posted_of_asks {disk : Disk} (h : (system cfg).Run (start disk) tr d)
    {address : Credentials} {token : Int32} {path : String} {cond : NetDvrPlayCond}
    (hasks : Asks tr address token path cond) :
    ∃ w r, (grounds cfg tr).posted r ∧ w.request = { r with token := w.request.token } ∧
      r.credentials = address ∧ (grounds cfg tr).granted address.identity w.request.token ∧
      token = .ofInt w.request.token ∧ path = mp4Path r.key ∧
      cond = (HCNetSDKDownloader.ofWorker w).cond := by
  obtain ⟨t, ht, w, hw, rfl, calls, u, hDl, hrun, hcall⟩ := hasks
  obtain ⟨newer, older, rfl⟩ := List.append_of_mem ht
  have hallow := (justified_step (grounded h.split.1) h.split.2).2 _ hw
  have hext := extends_append cfg newer (t :: older)
  obtain ⟨r, hr, hreq, hpath, hgranted⟩ := hallow
  obtain ⟨htoken, hout, hcond⟩ := HCNetSDKDownloader.asks_for_request hrun hcall
  have hcred : w.request.credentials = r.credentials := congrArg (·.credentials) hreq
  refine ⟨w, r, hext.posted r hr, hreq, hcred.symm, ?_, htoken, hout.trans hpath, hcond⟩
  rw [hcred]
  exact hext.granted _ _ hgranted

/-- What is asked at an address is asked into the file of its own text. -/
theorem path_of_asks {disk : Disk} (h : (system cfg).Run (start disk) tr d)
    {address : Credentials} {token : Int32} {path : String} {cond : NetDvrPlayCond}
    (hasks : Asks tr address token path cond) :
    path = mp4Path ⟨shortDigest cfg.http.hasher (conditionText address cond)⟩ ∧
      ∃ session, (grounds cfg tr).granted address.identity session ∧ token = .ofInt session := by
  obtain ⟨w, r, hr, hreq, rfl, hgranted, htoken, rfl, rfl⟩ := posted_of_asks h hasks
  have hrequest : (HCNetSDKDownloader.ofWorker w).request = w.request := rfl
  have hchannel : w.request.channel = r.channel := congrArg (·.channel) hreq
  have hrange : w.request.range = r.range := congrArg (·.range) hreq
  refine ⟨?_, _, hgranted, htoken⟩
  rw [HCNetSDKDownloader.conditionText_cond, hrequest, hchannel, hrange, mp4Path, mp4Path,
    (posted_key hr).1]

/-- The texts of two conditions are one only for the same recording. -/
theorem same_of_conditionText {disk : Disk} (h : (system cfg).Run (start disk) tr d)
    {address address' : Credentials} {token token' : Int32} {path path' : String}
    {cond cond' : NetDvrPlayCond} (hasks : Asks tr address token path cond)
    (hasks' : Asks tr address' token' path' cond')
    (htext : conditionText address cond = conditionText address' cond') :
    address.ip = address'.ip ∧ address.port = address'.port ∧ cond = cond' := by
  obtain ⟨w, r, hr, hreq, rfl, -, -, -, rfl⟩ := posted_of_asks h hasks
  obtain ⟨w', r', hr', hreq', rfl, -, -, -, rfl⟩ := posted_of_asks h hasks'
  have hrange : w.request.range = r.range := congrArg (·.range) hreq
  have hrange' : w'.request.range = r'.range := congrArg (·.range) hreq'
  obtain ⟨-, hbegin, hend⟩ := posted_key hr
  obtain ⟨-, hbegin', hend'⟩ := posted_key hr'
  rw [← hrange] at hbegin hend
  rw [← hrange'] at hbegin' hend'
  rw [HCNetSDKDownloader.conditionText_cond, HCNetSDKDownloader.conditionText_cond] at htext
  obtain ⟨hip, hport, hchannel, hb, he⟩ := keyInput_inj hbegin hend hbegin' hend' htext
  exact ⟨hip, hport, HCNetSDKDownloader.cond_eq hchannel hb he⟩

/-- **One file, one recording.** In every run, whatever the download threads ask the SDK for
goes into the file that the hash of address and condition names, on a session of that address;
so two of them write one file only for the same recording, or where the kept digests of two
different texts collide. -/
theorem recordings_apart {disk : Disk} (h : (system cfg).Run (start disk) tr d)
    {address address' : Credentials} {token token' : Int32} {path path' : String}
    {cond cond' : NetDvrPlayCond} (hasks : Asks tr address token path cond)
    (hasks' : Asks tr address' token' path' cond') :
    (path = mp4Path ⟨shortDigest cfg.http.hasher (conditionText address cond)⟩ ∧
      ∃ session, (grounds cfg tr).granted address.identity session ∧ token = .ofInt session) ∧
    (address.ip = address'.ip ∧ address.port = address'.port ∧ cond = cond' → path = path') ∧
    (path = path' → address.ip = address'.ip ∧ address.port = address'.port ∧ cond = cond' ∨
      conditionText address cond ≠ conditionText address' cond' ∧
        shortDigest cfg.http.hasher (conditionText address cond) =
          shortDigest cfg.http.hasher (conditionText address' cond')) := by
  have hpath := path_of_asks h hasks
  have hpath' := path_of_asks h hasks'
  refine ⟨hpath, ?_, ?_⟩
  · rintro ⟨hip, hport, rfl⟩
    have htext : conditionText address cond = conditionText address' cond := by
      rw [conditionText, conditionText, keyInput, keyInput, hip, hport]
    rw [hpath.1, hpath'.1, htext]
  · intro he
    rw [hpath.1, hpath'.1] at he
    have hdigest := congrArg PlaybackKey.hex (mp4Path_inj he)
    by_cases htext : conditionText address cond = conditionText address' cond'
    · exact Or.inl (same_of_conditionText h hasks hasks' htext)
    · exact Or.inr ⟨htext, hdigest⟩

/-- Each download that is started asks, with its first step. -/
theorem asks_of_started (ht : t ∈ tr) {w : Downloader} (hw : .startDownload w ∈ made t) :
    Asks tr w.request.credentials (.ofInt w.request.token) w.outputPath
      (HCNetSDKDownloader.ofWorker w).cond := by
  have hstep : (HCNetSDKDownloader.system (.ofWorker w)).step (.getFileByTime 5 0) {} = some _ := rfl
  exact ⟨t, ht, w, hw, rfl, _, _, 5, System.Run.nil.next hstep, List.mem_singleton_self _⟩

namespace Sample

def guest : Downloader :=
  { recorder with
    id := 1
    request := { recorder.request with
      credentials := { recorder.request.credentials with user := "guest" } } }

def other : Downloader :=
  { recorder with
    id := 2
    request := { recorder.request with
      credentials := { recorder.request.credentials with ip := "10.0.0.2" } } }

/-- A recording is asked for twice, by two users, and then that of another camera, whose text
has the same digest. -/
def collision : List Action :=
  [post, .work (.handle Machine.Sample.env), .work (.downloadExit recorder false "connection lost"),
    .work (.handle Machine.Sample.env),
    .playbackPost (utf8 "key") (some (body.insert "user" (.string "guest"))),
    .work (.handle Machine.Sample.env), .work (.downloadExit guest false "connection lost"),
    .work (.handle Machine.Sample.env), otherPost, .work (.handle Machine.Sample.env)]

end Sample

theorem recordings_apart_collision :
    ∃ h : ((system Sample.config).replay (start {}) Sample.collision).isSome = true,
      let tr := (((system Sample.config).replay (start {}) Sample.collision).get h).1
      let address (w : Downloader) := w.request.credentials
      let cond (w : Downloader) := (HCNetSDKDownloader.ofWorker w).cond
      let digest (w : Downloader) :=
        shortDigest Sample.config.http.hasher (conditionText (address w) (cond w))
      (∀ w ∈ [Sample.recorder, Sample.guest, Sample.other],
        Asks tr (address w) 7 w.outputPath (cond w) ∧ w.outputPath = mp4Path ⟨digest w⟩ ∧
          ∃ session, (grounds Sample.config tr).granted (address w).identity session ∧
            7 = Int32.ofInt session) ∧
      Sample.recorder.outputPath = Sample.guest.outputPath ∧
      conditionText (address Sample.recorder) (cond Sample.recorder) ≠
        conditionText (address Sample.other) (cond Sample.other) ∧
      digest Sample.recorder = digest Sample.other := by
  have hsome : ((system Sample.config).replay (start {}) Sample.collision).isSome = true := by
    decide
  have hstarts : ∀ w ∈ [Sample.recorder, Sample.guest, Sample.other],
      ∃ t ∈ (((system Sample.config).replay (start {}) Sample.collision).get hsome).1,
        .startDownload w ∈ made t := by decide +revert
  have hasks : ∀ w ∈ [Sample.recorder, Sample.guest, Sample.other],
      Asks (((system Sample.config).replay (start {}) Sample.collision).get hsome).1
        w.request.credentials 7 w.outputPath (HCNetSDKDownloader.ofWorker w).cond := by
    intro w hw
    obtain ⟨t, ht, hmade⟩ := hstarts w hw
    have htoken : .ofInt w.request.token = (7 : Int32) := by
      simp only [List.mem_cons, List.not_mem_nil, or_false] at hw
      rcases hw with rfl | rfl | rfl <;> decide
    exact htoken ▸ asks_of_started ht hmade
  have hrun := System.run_get hsome
  have hfirst := hasks _ List.mem_cons_self
  have hguest := hasks _ (List.mem_cons_of_mem _ List.mem_cons_self)
  have hother := hasks _ (List.mem_cons_of_mem _ (List.mem_cons_of_mem _ List.mem_cons_self))
  refine ⟨hsome, fun w hw => ⟨hasks w hw, (recordings_apart hrun (hasks w hw) hfirst).1⟩, ?_, ?_⟩
  · exact (recordings_apart hrun hfirst hguest).2.1 ⟨rfl, rfl, rfl⟩
  · have hip : Sample.recorder.request.credentials.ip ≠ Sample.other.request.credentials.ip := by
      decide
    exact ((recordings_apart hrun hfirst hother).2.2 rfl).resolve_left fun h => hip h.1

end Daemon

end VisionPlayback
