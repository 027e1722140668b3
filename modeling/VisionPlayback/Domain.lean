import Mathlib.Data.List.Basic

/-!
# Domain values

Requests, keys, times and job statuses. A `QString`, and a `std::string` made
from one, is a `String`; text that is read byte by byte is the list of its
bytes. Fixed-width integers keep their width.
-/

namespace VisionPlayback

abbrev Bytes := List UInt8

/-- `QString::toStdString`. -/
def utf8 (s : String) : Bytes := s.toUTF8.data.toList

abbrev SessionToken := Int

/-- `unknown` is the answer for a key without a record. -/
inductive StreamStatus
  | unknown | pending | downloading | packaging | ready | failed
  deriving DecidableEq

structure Credentials where
  ip : String
  port : UInt16 := 8000
  user : String
  pass : String
  deriving DecidableEq

/-- The login-cache key; the password is left out. -/
structure CameraIdentity where
  ip : String
  port : UInt16
  user : String
  deriving DecidableEq

structure Channel where
  id : Int32 := 1
  deriving DecidableEq

structure PlaybackTime where
  year : UInt16 := 0
  month : UInt8 := 0
  day : UInt8 := 0
  hour : UInt8 := 0
  minute : UInt8 := 0
  second : UInt8 := 0
  deriving DecidableEq

structure TimeRange where
  begin : PlaybackTime
  end_ : PlaybackTime
  deriving DecidableEq

structure PlaybackKey where
  hex : String
  deriving DecidableEq

structure PlaybackRequest where
  credentials : Credentials
  token : SessionToken := -1
  channel : Channel
  range : TimeRange
  key : PlaybackKey
  deriving DecidableEq

/-! ## Times -/

/-- The digit loop of one field: `0` as soon as a byte is not a digit. -/
def digitLoop (v : Nat) : Bytes → Nat
  | [] => v
  | c :: cs => if c < 48 ∨ 57 < c then 0 else digitLoop (v * 10 + (c.toNat - 48)) cs

def parsePlaybackTimeCompact (s : Bytes) : PlaybackTime :=
  if s.length < 15 then {}
  else
    let toU (pos len : Nat) : Nat := digitLoop 0 ((s.drop pos).take len)
    -- s[8] is not looked at
    { year := .ofNat (toU 0 4), month := .ofNat (toU 4 2), day := .ofNat (toU 6 2),
      hour := .ofNat (toU 9 2), minute := .ofNat (toU 11 2), second := .ofNat (toU 13 2) }

/-- `%0<width>u`: the width is a minimum, a longer number is printed whole. -/
def padZero (width n : Nat) : List Char :=
  List.replicate (width - (Nat.toDigits 10 n).length) '0' ++ Nat.toDigits 10 n

/-- The buffer holds 23 characters and the terminator. -/
def formatPlaybackTime (t : PlaybackTime) : String :=
  String.ofList <| (padZero 4 t.year.toNat ++ padZero 2 t.month.toNat ++ padZero 2 t.day.toNat ++
    ['T'] ++ padZero 2 t.hour.toNat ++ padZero 2 t.minute.toNat ++
    padZero 2 t.second.toNat).take 23

/-! ## Keys -/

def isHexDigit (c : Char) : Bool := ('0' ≤ c && c ≤ '9') || ('a' ≤ c && c ≤ 'f')

/-- Sixteen lower-case hex digits. -/
def isHex16 (s : String) : Bool := s.toList.length = 16 && s.toList.all isHexDigit

/-- `^[0-9a-f]{16}$`. The `$` of the engine also matches before one final newline. -/
def matchesHex16 (s : String) : Bool :=
  isHex16 s || (s.toList.length = 17 && (s.toList.take 16).all isHexDigit &&
    s.toList.drop 16 = ['\n'])

/-- A digest routine, with what its documentation says of the text it returns. -/
structure Hasher where
  hexDigest : String → String
  digits : ∀ s, (hexDigest s).toList.all isHexDigit = true
  long : ∀ s, 16 ≤ (hexDigest s).toList.length

/-- `"<ip>:<port>/ch<channel>/<begin>-<end>"`. -/
def keyInput (credentials : Credentials) (channel : Channel) (range : TimeRange) : String :=
  credentials.ip ++ ":" ++ toString credentials.port.toNat ++ "/ch" ++
    toString channel.id.toInt ++ "/" ++ formatPlaybackTime range.begin ++ "-" ++
    formatPlaybackTime range.end_

def makePlaybackKey (credentials : Credentials) (channel : Channel) (range : TimeRange)
    (hasher : Hasher) : PlaybackKey :=
  ⟨String.ofList ((hasher.hexDigest (keyInput credentials channel range)).toList.take 16)⟩

theorem isHex16_makePlaybackKey (credentials : Credentials) (channel : Channel)
    (range : TimeRange) (hasher : Hasher) :
    isHex16 (makePlaybackKey credentials channel range hasher).hex = true := by
  have hlen := hasher.long (keyInput credentials channel range)
  have hall := hasher.digits (keyInput credentials channel range)
  rw [List.all_eq_true] at hall
  simp only [isHex16, makePlaybackKey, String.toList_ofList, List.length_take,
    Bool.and_eq_true, decide_eq_true_eq, List.all_eq_true]
  exact ⟨by omega, fun c hc => hall c (List.mem_of_mem_take hc)⟩

end VisionPlayback
