import VisionPlayback.Http.Listener
import VisionPlayback.Lib.Checklist
import VisionPlayback.TimeCodec

/-!
# The payload of a playback request

The JSON tests that the parser makes, against the schema of the API: the parser
asks for the JSON type of each member and not for its range or its pattern.
-/

namespace VisionPlayback

open Lib Lib.Checklist

namespace JsonValue

def isString : JsonValue → Bool
  | .string _ => true
  | _ => false

def isNumber : JsonValue → Bool
  | .number _ => true
  | _ => false

/-- `type: integer`, between two bounds. -/
def isIntegerIn (lo hi : ℤ) : JsonValue → Bool
  | .number x => x.den = 1 && lo ≤ x.num && x.num ≤ hi
  | _ => false

def isTime : JsonValue → Bool
  | .string s => isCompactTime s
  | _ => false

end JsonValue

namespace Listener

/-- A member of the payload, with the JSON type the parser asks for and with what the
schema says of its value. -/
structure Field where
  name : String
  typed : JsonValue → Bool
  documented : JsonValue → Bool

/-- The members in the order in which they are read; the channel number is one of 32 bits. -/
def fields : List Field :=
  [⟨"ip", JsonValue.isString, JsonValue.isString⟩,
    ⟨"port", JsonValue.isNumber, JsonValue.isIntegerIn 1 65535⟩,
    ⟨"user", JsonValue.isString, JsonValue.isString⟩,
    ⟨"pass", JsonValue.isString, JsonValue.isString⟩,
    ⟨"channel_id", JsonValue.isNumber, JsonValue.isIntegerIn 1 (2 ^ 31 - 1)⟩,
    ⟨"start_time", JsonValue.isString, JsonValue.isTime⟩,
    ⟨"end_time", JsonValue.isString, JsonValue.isTime⟩]

/-- The member is there and passes a test. -/
def passes (test : JsonValue → Bool) (o : Table String JsonValue) (name : String) : Bool :=
  match o.lookup name with
  | none => false
  | some v => test v

def Field.typedIn (o : Table String JsonValue) (f : Field) : Bool := passes f.typed o f.name

def Field.documentedIn (o : Table String JsonValue) (f : Field) : Bool :=
  passes f.documented o f.name

/-- The payload law: what is documented is accepted and nothing else, accepted values come
through unchanged, and an error names the first offending member. -/
structure Conforms (o : Table String JsonValue) : Prop where
  accepts : (∃ body, parsePlaybackPostBody (some o) = .ok body) ↔
    ∀ f ∈ fields, f.documentedIn o = true
  credentials : ∀ body, parsePlaybackPostBody (some o) = .ok body →
    o.lookup "ip" = some (.string body.credentials.ip) ∧
    o.lookup "port" = some (.number body.credentials.port.toNat) ∧
    o.lookup "user" = some (.string body.credentials.user) ∧
    o.lookup "pass" = some (.string body.credentials.pass)
  channel : ∀ body, parsePlaybackPostBody (some o) = .ok body →
    o.lookup "channel_id" = some (.number body.channel.id.toInt)
  times : ∀ body, parsePlaybackPostBody (some o) = .ok body →
    o.lookup "start_time" = some (.string (formatPlaybackTime body.range.begin)) ∧
    o.lookup "end_time" = some (.string (formatPlaybackTime body.range.end_))
  names : ∀ missingField, parsePlaybackPostBody (some o) = .error missingField →
    (firstFailing (Field.documentedIn o) fields).map (·.name) = some missingField

/-- A member of the right JSON type, after members of the right JSON types, has a
documented value. -/
def TypesSuffice (o : Table String JsonValue) : Prop :=
  ∀ before f after, fields = before ++ f :: after → (∀ g ∈ before, g.typedIn o = true) →
    f.typedIn o = true → f.documentedIn o = true

/-! ## The parser as a checklist -/

def stringAt (o : Table String JsonValue) (k : String) : String :=
  match o.lookup k with
  | some (.string s) => s
  | _ => ""

def numberAt (o : Table String JsonValue) (k : String) : ℤ :=
  match o.lookup k with
  | some (.number x) => (JsonValue.number x).toInt
  | _ => 0

theorem passes_iff {test : JsonValue → Bool} {o : Table String JsonValue} {k : String} :
    passes test o k = true ↔ ∃ v, o.lookup k = some v ∧ test v = true := by
  unfold passes
  cases o.lookup k with
  | none => simp
  | some v => simp

theorem requireString_eq (o : Table String JsonValue) (k : String) : requireString o k =
    if passes JsonValue.isString o k = true then .ok (stringAt o k) else .error k := by
  unfold requireString passes stringAt
  cases o.lookup k with
  | none => rfl
  | some v => cases v <;> rfl

theorem requireInt_eq (o : Table String JsonValue) (k : String) : requireInt o k =
    if passes JsonValue.isNumber o k = true then .ok (numberAt o k) else .error k := by
  unfold requireInt passes numberAt
  cases o.lookup k with
  | none => rfl
  | some v => cases v <;> rfl

/-- What the parser makes of an object whose members have the right JSON types. -/
def decoded (o : Table String JsonValue) : PlaybackPostBody where
  credentials := {
    ip := stringAt o "ip", port := UInt16.ofInt (numberAt o "port")
    user := stringAt o "user", pass := stringAt o "pass" }
  channel := { id := Int32.ofInt (numberAt o "channel_id") }
  range := {
    begin := parsePlaybackTimeCompact (utf8 (stringAt o "start_time"))
    end_ := parsePlaybackTimeCompact (utf8 (stringAt o "end_time")) }

/-- The parser fails at the first member of the wrong JSON type. -/
theorem parsePlaybackPostBody_eq (o : Table String JsonValue) :
    parsePlaybackPostBody (some o) =
      match firstFailing (Field.typedIn o) fields with
      | some f => .error f.name
      | none => .ok (decoded o) := by
  unfold parsePlaybackPostBody
  simp only [requireString_eq, requireInt_eq, firstFailing, fields, Field.typedIn, List.find?_cons]
  cases passes JsonValue.isString o "ip" with
  | false => rfl
  | true =>
  cases passes JsonValue.isNumber o "port" with
  | false => rfl
  | true =>
  cases passes JsonValue.isString o "user" with
  | false => rfl
  | true =>
  cases passes JsonValue.isString o "pass" with
  | false => rfl
  | true =>
  cases passes JsonValue.isNumber o "channel_id" with
  | false => rfl
  | true =>
  cases passes JsonValue.isString o "start_time" with
  | false => rfl
  | true =>
  cases passes JsonValue.isString o "end_time" with
  | false => rfl
  | true => rfl

theorem typedIn_of_documentedIn {o : Table String JsonValue} {f : Field} (hf : f ∈ fields)
    (h : f.documentedIn o = true) : f.typedIn o = true := by
  have hvalue : ∀ v, f.documented v = true → f.typed v = true := by
    simp only [fields, List.mem_cons, List.not_mem_nil, or_false] at hf
    intro v hv
    rcases hf with rfl | rfl | rfl | rfl | rfl | rfl | rfl
    all_goals
      cases v with
      | string s => first | rfl | cases hv
      | number x => first | rfl | cases hv
      | other => cases hv
  obtain ⟨v, hlookup, hv⟩ := passes_iff.mp h
  exact passes_iff.mpr ⟨v, hlookup, hvalue v hv⟩

/-! ## Values that come through -/

theorem lookup_of_isString {o : Table String JsonValue} {k : String}
    (h : passes JsonValue.isString o k = true) : o.lookup k = some (.string (stringAt o k)) := by
  obtain ⟨v, hlookup, hv⟩ := passes_iff.mp h
  cases v with
  | string s => rw [stringAt, hlookup]
  | number x => cases hv
  | other => cases hv

/-- A whole number between bounds that fit 32 bits is read as it is. -/
theorem lookup_of_isIntegerIn {o : Table String JsonValue} {k : String} {lo hi : ℤ}
    (hlo : -2 ^ 31 ≤ lo) (hhi : hi < 2 ^ 31)
    (h : passes (JsonValue.isIntegerIn lo hi) o k = true) :
    o.lookup k = some (.number (numberAt o k)) ∧ lo ≤ numberAt o k ∧ numberAt o k ≤ hi := by
  obtain ⟨v, hlookup, hv⟩ := passes_iff.mp h
  cases v with
  | string s => cases hv
  | other => cases hv
  | number x =>
    simp only [JsonValue.isIntegerIn, Bool.and_eq_true, decide_eq_true_eq] at hv
    obtain ⟨⟨hden, hge⟩, hle⟩ := hv
    have hread : numberAt o k = x.num := by
      rw [numberAt, hlookup]
      exact if_pos ⟨hden, hlo.trans hge, lt_of_le_of_lt hle hhi⟩
    have hwhole : (x.num : Rat) = x := by
      apply Rat.ext
      · rw [Rat.num_intCast]
      · rw [Rat.den_intCast, hden]
    rw [hlookup, hread, hwhole]
    exact ⟨rfl, hge, hle⟩

/-- The cast to 16 bits changes nothing between the bounds of a port. -/
theorem lookup_of_isPort {o : Table String JsonValue} {k : String}
    (h : passes (JsonValue.isIntegerIn 1 65535) o k = true) :
    o.lookup k = some (.number (UInt16.ofInt (numberAt o k)).toNat) := by
  obtain ⟨hlookup, hge, hle⟩ := lookup_of_isIntegerIn (by decide) (by decide) h
  have hcast : ((UInt16.ofInt (numberAt o k)).toNat : ℤ) = numberAt o k := by
    have hsize : UInt16.size = 65536 := rfl
    rw [UInt16.ofInt, UInt16.toNat_ofNat_of_lt' (by omega)]
    omega
  rw [hlookup]
  show _ = some (JsonValue.number (((UInt16.ofInt (numberAt o k)).toNat : ℤ) : Rat))
  rw [hcast]

theorem lookup_of_isChannel {o : Table String JsonValue} {k : String}
    (h : passes (JsonValue.isIntegerIn 1 (2 ^ 31 - 1)) o k = true) :
    o.lookup k = some (.number (Int32.ofInt (numberAt o k)).toInt) := by
  obtain ⟨hlookup, hge, hle⟩ := lookup_of_isIntegerIn (by decide) (by decide) h
  rw [hlookup, Int32.toInt_ofInt_of_le (by omega) (by omega)]

theorem lookup_of_isTime {o : Table String JsonValue} {k : String}
    (h : passes JsonValue.isTime o k = true) : o.lookup k =
      some (.string (formatPlaybackTime (parsePlaybackTimeCompact (utf8 (stringAt o k))))) := by
  obtain ⟨v, hlookup, hv⟩ := passes_iff.mp h
  cases v with
  | number x => cases hv
  | other => cases hv
  | string s =>
    have hs : stringAt o k = s := by rw [stringAt, hlookup]
    rw [hs, formatPlaybackTime_parse hv, hlookup]

/-! ## The law -/

/-- An object that is rejected at its first undocumented member. -/
theorem conforms_of_error {o : Table String JsonValue} {f : Field}
    (hparse : parsePlaybackPostBody (some o) = .error f.name)
    (hfirst : firstFailing (Field.documentedIn o) fields = some f) : Conforms o := by
  have hreject : ∀ body, parsePlaybackPostBody (some o) ≠ .ok body := by
    intro body hbody
    rw [hparse] at hbody
    cases hbody
  constructor
  · constructor
    · rintro ⟨body, hbody⟩
      exact absurd hbody (hreject body)
    · intro hall
      rw [firstFailing_eq_none.mpr hall] at hfirst
      cases hfirst
  · intro body hbody
    exact absurd hbody (hreject body)
  · intro body hbody
    exact absurd hbody (hreject body)
  · intro body hbody
    exact absurd hbody (hreject body)
  · intro missingField he
    rw [hparse] at he
    obtain rfl := Except.error.inj he
    rw [hfirst]
    rfl

/-- An object with documented members that is accepted. -/
theorem conforms_of_ok {o : Table String JsonValue}
    (hparse : parsePlaybackPostBody (some o) = .ok (decoded o))
    (hdoc : ∀ f ∈ fields, f.documentedIn o = true) : Conforms o := by
  have hall := hdoc
  simp only [fields, List.forall_mem_cons, Field.documentedIn] at hall
  obtain ⟨hip, hport, huser, hpass, hchannel, hstart, hstop, -⟩ := hall
  have hbody : ∀ body, parsePlaybackPostBody (some o) = .ok body → body = decoded o := by
    intro body hb
    rw [hparse] at hb
    exact (Except.ok.inj hb).symm
  constructor
  · exact ⟨fun _ => hdoc, fun _ => ⟨_, hparse⟩⟩
  · intro body hb
    rw [hbody body hb]
    exact ⟨lookup_of_isString hip, lookup_of_isPort hport, lookup_of_isString huser,
      lookup_of_isString hpass⟩
  · intro body hb
    rw [hbody body hb]
    exact lookup_of_isChannel hchannel
  · intro body hb
    rw [hbody body hb]
    exact ⟨lookup_of_isTime hstart, lookup_of_isTime hstop⟩
  · intro missingField he
    rw [hparse] at he
    cases he

/-- Where the documented values decide, the parser is right. -/
theorem conforms_of_firstFailing {o : Table String JsonValue}
    (h : firstFailing (Field.typedIn o) fields = firstFailing (Field.documentedIn o) fields) :
    Conforms o := by
  have hparse := parsePlaybackPostBody_eq o
  rw [h] at hparse
  cases hfirst : firstFailing (Field.documentedIn o) fields with
  | some f =>
    rw [hfirst] at hparse
    exact conforms_of_error hparse hfirst
  | none =>
    rw [hfirst] at hparse
    exact conforms_of_ok hparse (firstFailing_eq_none.mp hfirst)

/-- The parser conforms to the schema exactly on the objects for which the JSON types are
enough. -/
theorem conforms_iff (o : Table String JsonValue) : Conforms o ↔ TypesSuffice o := by
  unfold TypesSuffice
  rw [← firstFailing_eq_iff fun f hf => typedIn_of_documentedIn hf]
  constructor
  · intro h
    have hparse := parsePlaybackPostBody_eq o
    cases hfirst : firstFailing (Field.typedIn o) fields with
    | none =>
      rw [hfirst] at hparse
      exact (firstFailing_eq_none.mpr (h.accepts.mp ⟨_, hparse⟩)).symm
    | some f =>
      rw [hfirst] at hparse
      obtain ⟨g, hg, hname⟩ := Option.map_eq_some_iff.mp (h.names _ hparse)
      -- members are told apart by their names
      have hmem : ∀ {test : Field → Bool} {f : Field}, firstFailing test fields = some f →
          f ∈ fields := fun hf => List.mem_of_find?_eq_some hf
      have hnodup : (fields.map (·.name)).Nodup := by decide
      obtain rfl := List.inj_on_of_nodup_map hnodup (hmem hg) (hmem hfirst) hname
      exact hg.symm
  · exact conforms_of_firstFailing

/-- A port that does not fit 16 bits. -/
def widePort : Table String JsonValue :=
  (((((((∅ : Table String JsonValue).insert "ip" (.string "10.0.0.1")).insert "port"
    (.number 70000)).insert "user" (.string "admin")).insert "pass" (.string "")).insert
      "channel_id" (.number 1)).insert "start_time" (.string "20240101T000000")).insert
        "end_time" (.string "20240101T000009")

theorem not_conforms : ¬ ∀ o, Conforms o := by
  intro hall
  have hport : passes (JsonValue.isIntegerIn 1 65535) widePort "port" = true := by
    refine (hall widePort).accepts.mp ?_ _ (List.mem_cons_of_mem _ List.mem_cons_self)
    rw [parsePlaybackPostBody_eq]
    have hnone : (firstFailing (Field.typedIn widePort) fields).isNone = true := by decide
    rw [Option.isNone_iff_eq_none.mp hnone]
    exact ⟨_, rfl⟩
  exact absurd hport (by decide)

end Listener

end VisionPlayback
