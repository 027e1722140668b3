import Mathlib.Data.UInt
import VisionPlayback.Domain
import VisionPlayback.Lib.Decimal

/-!
# Compact times

The times that the parser can produce, their rendering, and the texts that come
back unchanged. The parser checks no calendar, and neither is one assumed here.
-/

namespace VisionPlayback

open Lib.Decimal

/-- The fields fit their places in the rendered text. -/
structure PlaybackTime.Printable (t : PlaybackTime) : Prop where
  year : t.year.toNat < 10 ^ 4
  month : t.month.toNat < 10 ^ 2
  day : t.day.toNat < 10 ^ 2
  hour : t.hour.toNat < 10 ^ 2
  minute : t.minute.toNat < 10 ^ 2
  second : t.second.toNat < 10 ^ 2

/-! ## Parsing -/

theorem digitLoop_lt (v : ℕ) (cs : Bytes) : digitLoop v cs < (v + 1) * 10 ^ cs.length := by
  induction cs generalizing v with
  | nil => simp [digitLoop]
  | cons c cs ih =>
    unfold digitLoop
    split
    · exact Nat.mul_pos (Nat.succ_pos v) (Nat.pow_pos (by decide))
    · next hdigit =>
      have hc : c.toNat - 48 ≤ 9 := by
        rw [not_or, UInt8.not_lt, UInt8.not_lt, UInt8.le_iff_toNat_le] at hdigit
        have : c.toNat ≤ 57 := UInt8.le_iff_toNat_le.mp hdigit.2
        omega
      calc digitLoop (v * 10 + (c.toNat - 48)) cs
          < (v * 10 + (c.toNat - 48) + 1) * 10 ^ cs.length := ih _
        _ ≤ ((v + 1) * 10) * 10 ^ cs.length := Nat.mul_le_mul_right _ (by omega)
        _ = (v + 1) * 10 ^ (c :: cs).length := by
          rw [List.length_cons, Nat.pow_succ, Nat.mul_assoc, Nat.mul_comm 10]

/-- The digit loop over a field of the text. -/
theorem field_lt (s : Bytes) (pos len : ℕ) : digitLoop 0 ((s.drop pos).take len) < 10 ^ len := by
  have h := digitLoop_lt 0 ((s.drop pos).take len)
  rw [Nat.zero_add, Nat.one_mul] at h
  exact h.trans_le (Nat.pow_le_pow_right (by decide) (List.length_take_le _ _))

theorem parse_printable (s : Bytes) : (parsePlaybackTimeCompact s).Printable := by
  unfold parsePlaybackTimeCompact
  split
  · constructor <;> decide
  · constructor <;> dsimp only
    · exact lt_of_eq_of_lt (UInt16.toNat_ofNat_of_lt' ((field_lt s 0 4).trans (by decide)))
        (field_lt s 0 4)
    all_goals
      exact lt_of_eq_of_lt (UInt8.toNat_ofNat_of_lt' ((field_lt s _ 2).trans (by decide)))
        (field_lt s _ 2)

/-! ## Rendering -/

/-- The rendered text before it is cut to the buffer. -/
def timeDigits (t : PlaybackTime) : List Char :=
  pad 4 t.year.toNat ++ pad 2 t.month.toNat ++ pad 2 t.day.toNat ++ ['T'] ++
    pad 2 t.hour.toNat ++ pad 2 t.minute.toNat ++ pad 2 t.second.toNat

theorem length_timeDigits {t : PlaybackTime} (h : t.Printable) : (timeDigits t).length = 15 := by
  simp only [timeDigits, List.length_append, List.length_singleton,
    length_pad (by decide : 0 < 4) h.year, length_pad (by decide : 0 < 2) h.month,
    length_pad (by decide : 0 < 2) h.day, length_pad (by decide : 0 < 2) h.hour,
    length_pad (by decide : 0 < 2) h.minute, length_pad (by decide : 0 < 2) h.second]

theorem toList_formatPlaybackTime {t : PlaybackTime} (h : t.Printable) :
    (formatPlaybackTime t).toList = timeDigits t := by
  rw [formatPlaybackTime, String.toList_ofList]
  apply List.take_of_length_le
  exact (length_timeDigits h).trans_le (by decide)

theorem length_formatPlaybackTime {t : PlaybackTime} (h : t.Printable) :
    (formatPlaybackTime t).toList.length = 15 := by
  rw [toList_formatPlaybackTime h, length_timeDigits h]

/-- A printable time can be read off its text. -/
theorem formatPlaybackTime_inj {t t' : PlaybackTime} (h : t.Printable) (h' : t'.Printable)
    (he : formatPlaybackTime t = formatPlaybackTime t') : t = t' := by
  have hlist := congrArg String.toList he
  rw [toList_formatPlaybackTime h, toList_formatPlaybackTime h'] at hlist
  simp only [timeDigits] at hlist
  -- the fields are cut off one by one, from the right
  obtain ⟨hlist, hsecond⟩ := List.append_inj' hlist
    (by rw [length_pad (by decide) h.second, length_pad (by decide) h'.second])
  obtain ⟨hlist, hminute⟩ := List.append_inj' hlist
    (by rw [length_pad (by decide) h.minute, length_pad (by decide) h'.minute])
  obtain ⟨hlist, hhour⟩ := List.append_inj' hlist
    (by rw [length_pad (by decide) h.hour, length_pad (by decide) h'.hour])
  obtain ⟨hlist, -⟩ := List.append_inj' hlist rfl
  obtain ⟨hlist, hday⟩ := List.append_inj' hlist
    (by rw [length_pad (by decide) h.day, length_pad (by decide) h'.day])
  obtain ⟨hyear, hmonth⟩ := List.append_inj' hlist
    (by rw [length_pad (by decide) h.month, length_pad (by decide) h'.month])
  cases t
  cases t'
  simp only [PlaybackTime.mk.injEq, ← UInt16.toNat_inj, ← UInt8.toNat_inj]
  exact ⟨pad_inj hyear, pad_inj hmonth, pad_inj hday, pad_inj hhour, pad_inj hminute,
    pad_inj hsecond⟩

/-! ## Texts that come back unchanged -/

/-- `^[0-9]{8}T[0-9]{6}$`. -/
def isCompactTime (s : String) : Bool :=
  s.toList.length = 15 && (s.toList.take 8).all Char.isDigit && s.toList[8]? = some 'T' &&
    (s.toList.drop 9).all Char.isDigit

theorem utf8_eq (s : String) : utf8 s = s.toList.flatMap String.utf8EncodeChar := by
  obtain ⟨l, rfl⟩ := s.exists_eq_ofList
  rw [utf8, String.toUTF8_eq_toByteArray, String.toByteArray_ofList, String.toList_ofList,
    List.utf8Encode, List.data_toByteArray]

/-- Plain characters are one byte each. -/
theorem utf8_of_ascii {s : String} (h : ∀ c ∈ s.toList, c.toNat < 128) :
    utf8 s = s.toList.map fun c => UInt8.ofNat c.toNat := by
  rw [utf8_eq, List.map_eq_flatMap]
  apply List.flatMap_congr
  intro c hc
  have hle : c.val.toNat ≤ 127 := Nat.le_of_lt_succ (h c hc)
  exact if_pos hle

theorem digitLoop_map (v : ℕ) {cs : List Char} (h : ∀ c ∈ cs, c.isDigit = true) :
    digitLoop v (cs.map fun c => UInt8.ofNat c.toNat) = Nat.ofDigitChars 10 cs v := by
  induction cs generalizing v with
  | nil => rfl
  | cons c cs ih =>
    obtain ⟨hlo, hhi⟩ := toNat_of_isDigit (h c List.mem_cons_self)
    have hbyte : (UInt8.ofNat c.toNat).toNat = c.toNat := UInt8.toNat_ofNat_of_lt' (lt_of_le_of_lt hhi (by decide))
    have hdigit : ¬ (UInt8.ofNat c.toNat < 48 ∨ 57 < UInt8.ofNat c.toNat) := by
      rw [UInt8.lt_iff_toNat_lt, UInt8.lt_iff_toNat_lt, hbyte]
      show ¬ (c.toNat < 48 ∨ 57 < c.toNat)
      omega
    rw [List.map_cons, digitLoop, if_neg hdigit, hbyte, Nat.ofDigitChars_cons,
      ih _ fun c hc => h c (List.mem_cons_of_mem _ hc), Nat.mul_comm]
    rfl

theorem of_isCompactTime {s : String} (h : isCompactTime s = true) :
    s.toList.length = 15 ∧ (∀ c ∈ s.toList.take 8, c.isDigit = true) ∧
      s.toList.drop 8 = 'T' :: s.toList.drop 9 ∧ ∀ c ∈ s.toList.drop 9, c.isDigit = true := by
  simp only [isCompactTime, Bool.and_eq_true, decide_eq_true_eq, List.all_eq_true] at h
  obtain ⟨⟨⟨hlen, hdate⟩, hT⟩, htime⟩ := h
  obtain ⟨hlt, hget⟩ := List.getElem?_eq_some_iff.mp hT
  exact ⟨hlen, hdate, by rw [List.drop_eq_getElem_cons hlt, hget], htime⟩

theorem utf8_of_isCompactTime {s : String} (h : isCompactTime s = true) :
    utf8 s = s.toList.map fun c => UInt8.ofNat c.toNat := by
  obtain ⟨-, hdate, hdrop, htime⟩ := of_isCompactTime h
  apply utf8_of_ascii
  intro c hc
  rw [← List.take_append_drop 8 s.toList, hdrop, List.mem_append, List.mem_cons] at hc
  rcases hc with hc | rfl | hc
  · have := toNat_of_isDigit (hdate c hc)
    omega
  · decide
  · have := toNat_of_isDigit (htime c hc)
    omega

/-- A field of the date, or of the time, is its digits again. -/
theorem pad_field {s : String} (h : isCompactTime s = true) {i n : ℕ} (hn : 0 < n)
    (hplace : i + n ≤ 8 ∨ 9 ≤ i ∧ i + n ≤ 15) :
    pad n (digitLoop 0 (((utf8 s).drop i).take n)) = (s.toList.drop i).take n := by
  obtain ⟨hlen, hdate, -, htime⟩ := of_isCompactTime h
  have hdigits : ∀ c ∈ (s.toList.drop i).take n, c.isDigit = true := by
    intro c hc
    rcases hplace with hle | ⟨hle, -⟩
    · rw [List.take_drop] at hc
      exact hdate c (List.take_subset_take_left _ hle (List.mem_of_mem_drop hc))
    · have hc := List.mem_of_mem_take hc
      rw [show i = 9 + (i - 9) by omega, ← List.drop_drop] at hc
      exact htime c (List.mem_of_mem_drop hc)
  have hlength : ((s.toList.drop i).take n).length = n := by
    rw [List.length_take, List.length_drop]
    omega
  rw [utf8_of_isCompactTime h, ← List.map_drop, ← List.map_take, digitLoop_map 0 hdigits]
  have hpad := pad_value (List.ne_nil_of_length_pos (by rw [hlength]; exact hn)) hdigits
  rwa [hlength] at hpad

theorem timeDigits_parse {s : String} (h : isCompactTime s = true) :
    timeDigits (parsePlaybackTimeCompact (utf8 s)) =
      (s.toList.drop 0).take 4 ++ (s.toList.drop 4).take 2 ++ (s.toList.drop 6).take 2 ++ ['T'] ++
        (s.toList.drop 9).take 2 ++ (s.toList.drop 11).take 2 ++ (s.toList.drop 13).take 2 := by
  have hlong : ¬ (utf8 s).length < 15 := by
    rw [utf8_of_isCompactTime h, List.length_map, (of_isCompactTime h).1]
    decide
  have hyear : (UInt16.ofNat (digitLoop 0 (((utf8 s).drop 0).take 4))).toNat =
      digitLoop 0 (((utf8 s).drop 0).take 4) :=
    UInt16.toNat_ofNat_of_lt' ((field_lt _ 0 4).trans (by decide))
  have hshort : ∀ i, (UInt8.ofNat (digitLoop 0 (((utf8 s).drop i).take 2))).toNat =
      digitLoop 0 (((utf8 s).drop i).take 2) :=
    fun i => UInt8.toNat_ofNat_of_lt' ((field_lt _ i 2).trans (by decide))
  rw [parsePlaybackTimeCompact, if_neg hlong]
  simp only [timeDigits, hshort, hyear]
  rw [pad_field (i := 0) (n := 4) h (by decide) (by decide),
    pad_field (i := 4) (n := 2) h (by decide) (by decide),
    pad_field (i := 6) (n := 2) h (by decide) (by decide),
    pad_field (i := 9) (n := 2) h (by decide) (by decide),
    pad_field (i := 11) (n := 2) h (by decide) (by decide),
    pad_field (i := 13) (n := 2) h (by decide) (by decide)]

/-- A text of the grammar is rendered again as it was. -/
theorem formatPlaybackTime_parse {s : String} (h : isCompactTime s = true) :
    formatPlaybackTime (parsePlaybackTimeCompact (utf8 s)) = s := by
  obtain ⟨hlen, -, hdrop, -⟩ := of_isCompactTime h
  have hjoin : ∀ i n, (s.toList.drop i).take n ++ s.toList.drop (i + n) = s.toList.drop i := by
    intro i n
    rw [← List.drop_drop, List.take_append_drop]
  have hlast : (s.toList.drop 13).take 2 = s.toList.drop 13 :=
    List.take_of_length_le (by rw [List.length_drop]; omega)
  apply String.toList_inj.mp
  rw [toList_formatPlaybackTime (parse_printable _), timeDigits_parse h, hlast]
  simp only [List.append_assoc]
  rw [hjoin 11 2, hjoin 9 2, List.singleton_append, ← hdrop, hjoin 6 2, hjoin 4 2, hjoin 0 4,
    List.drop_zero]

/-! ## The grammar on bytes -/

def isDigitByte (c : UInt8) : Bool := 48 ≤ c && c ≤ 57

/-- `^[0-9]{8}T[0-9]{6}$`, of a text that is read byte by byte. -/
def isCompactBytes (s : Bytes) : Bool :=
  s.length = 15 && (s.take 8).all isDigitByte && s[8]? = some 84 && (s.drop 9).all isDigitByte

theorem isDigitByte_iff {c : UInt8} : isDigitByte c = true ↔ 48 ≤ c.toNat ∧ c.toNat ≤ 57 := by
  rw [isDigitByte, Bool.and_eq_true, decide_eq_true_eq, decide_eq_true_eq, UInt8.le_iff_toNat_le,
    UInt8.le_iff_toNat_le]
  rfl

theorem toNat_ofUInt8 (c : UInt8) : (Char.ofUInt8 c).toNat = c.toNat := UInt8.toNat_toUInt32 c

theorem isDigit_ofUInt8 {c : UInt8} (h : isDigitByte c = true) :
    (Char.ofUInt8 c).isDigit = true := by
  obtain ⟨hlo, hhi⟩ := isDigitByte_iff.mp h
  rw [← toNat_ofUInt8] at hlo hhi
  simp only [Char.isDigit, Bool.and_eq_true, decide_eq_true_eq]
  exact ⟨hlo, hhi⟩

theorem isDigitByte_ofNat {c : Char} (h : c.isDigit = true) :
    isDigitByte (UInt8.ofNat c.toNat) = true := by
  obtain ⟨hlo, hhi⟩ := toNat_of_isDigit h
  have hbyte : (UInt8.ofNat c.toNat).toNat = c.toNat :=
    UInt8.toNat_ofNat_of_lt' (lt_of_le_of_lt hhi (by decide))
  rw [isDigitByte_iff, hbyte]
  exact ⟨hlo, hhi⟩

theorem isCompactBytes_utf8 {s : String} (h : isCompactTime s = true) :
    isCompactBytes (utf8 s) = true := by
  have hbytes := utf8_of_isCompactTime h
  simp only [isCompactTime, Bool.and_eq_true, decide_eq_true_eq, List.all_eq_true] at h
  obtain ⟨⟨⟨hlen, hdate⟩, hT⟩, htime⟩ := h
  simp only [isCompactBytes, hbytes, List.length_map, ← List.map_take, ← List.map_drop,
    List.getElem?_map, hT, Bool.and_eq_true, decide_eq_true_eq, List.all_eq_true, List.forall_mem_map]
  exact ⟨⟨⟨hlen, fun c hc => isDigitByte_ofNat (hdate c hc)⟩, rfl⟩,
    fun c hc => isDigitByte_ofNat (htime c hc)⟩

/-- Bytes of the grammar are those of a text of the grammar. -/
theorem exists_utf8_of_isCompactBytes {s : Bytes} (h : isCompactBytes s = true) :
    ∃ t, isCompactTime t = true ∧ utf8 t = s := by
  simp only [isCompactBytes, Bool.and_eq_true, decide_eq_true_eq, List.all_eq_true] at h
  obtain ⟨⟨⟨hlen, hdate⟩, hT⟩, htime⟩ := h
  have htext : isCompactTime (String.ofList (s.map Char.ofUInt8)) = true := by
    simp only [isCompactTime, String.toList_ofList, List.length_map, ← List.map_take,
      ← List.map_drop, List.getElem?_map, hT, Bool.and_eq_true, decide_eq_true_eq,
      List.all_eq_true, List.forall_mem_map]
    exact ⟨⟨⟨hlen, fun c hc => isDigit_ofUInt8 (hdate c hc)⟩, rfl⟩,
      fun c hc => isDigit_ofUInt8 (htime c hc)⟩
  refine ⟨_, htext, ?_⟩
  rw [utf8_of_isCompactTime htext, String.toList_ofList, List.map_map]
  refine List.map_id'' (fun c => ?_) s
  rw [Function.comp_apply, toNat_ofUInt8, UInt8.ofNat_toNat]

/-! ## The round trip -/

theorem isCompactTime_of_split {s : String} (date time : List Char)
    (hs : s.toList = date ++ 'T' :: time) (hdate : date.length = 8) (htime : time.length = 6)
    (hd : ∀ c ∈ date, c.isDigit = true) (ht : ∀ c ∈ time, c.isDigit = true) :
    isCompactTime s = true := by
  have htake : s.toList.take 8 = date := by rw [hs, List.take_left' hdate]
  have hdrop : s.toList.drop 8 = 'T' :: time := by rw [hs, List.drop_left' hdate]
  have hrest : s.toList.drop 9 = time := by rw [← List.drop_drop (i := 1) (j := 8), hdrop]; rfl
  have hget : s.toList[8]? = some 'T' := by
    rw [← List.head?_drop, hdrop]
    rfl
  have hlen : s.toList.length = 15 := by
    rw [hs, List.length_append, List.length_cons]
    omega
  simp only [isCompactTime, hlen, htake, hget, hrest, decide_true, Bool.true_and, Bool.and_true,
    Bool.and_eq_true, List.all_eq_true]
  exact ⟨hd, ht⟩

/-- A printable time is rendered as a text of the grammar. -/
theorem isCompactTime_formatPlaybackTime {t : PlaybackTime} (h : t.Printable) :
    isCompactTime (formatPlaybackTime t) = true := by
  have hdigits : ∀ width n, ∀ c ∈ pad width n, c.isDigit = true := by
    intro width n c hc
    rcases List.mem_append.mp hc with hc | hc
    · rw [List.eq_of_mem_replicate hc]
      rfl
    · exact isDigit_of_mem_toDigits hc
  have hall : ∀ x y z : List Char, (∀ c ∈ x, c.isDigit = true) → (∀ c ∈ y, c.isDigit = true) →
      (∀ c ∈ z, c.isDigit = true) → ∀ c ∈ x ++ y ++ z, c.isDigit = true := by
    intro x y z hx hy hz
    exact List.forall_mem_append.mpr ⟨List.forall_mem_append.mpr ⟨hx, hy⟩, hz⟩
  refine isCompactTime_of_split
    (pad 4 t.year.toNat ++ pad 2 t.month.toNat ++ pad 2 t.day.toNat)
    (pad 2 t.hour.toNat ++ pad 2 t.minute.toNat ++ pad 2 t.second.toNat) ?_ ?_ ?_ ?_ ?_
  · simp only [toList_formatPlaybackTime h, timeDigits, List.append_assoc, List.cons_append,
      List.nil_append]
  · simp only [List.length_append, length_pad (by decide : 0 < 4) h.year,
      length_pad (by decide : 0 < 2) h.month, length_pad (by decide : 0 < 2) h.day]
  · simp only [List.length_append, length_pad (by decide : 0 < 2) h.hour,
      length_pad (by decide : 0 < 2) h.minute, length_pad (by decide : 0 < 2) h.second]
  · exact hall _ _ _ (hdigits _ _) (hdigits _ _) (hdigits _ _)
  · exact hall _ _ _ (hdigits _ _) (hdigits _ _) (hdigits _ _)

/-- A printable time is read back from its text. -/
theorem parse_formatPlaybackTime {t : PlaybackTime} (h : t.Printable) :
    parsePlaybackTimeCompact (utf8 (formatPlaybackTime t)) = t :=
  formatPlaybackTime_inj (parse_printable _) h
    (formatPlaybackTime_parse (isCompactTime_formatPlaybackTime h))

/-- The fields of a long enough text, as the digit loop reads them. -/
structure ReadsExactly (s : Bytes) (t : PlaybackTime) : Prop where
  year : t.year.toNat = digitLoop 0 ((s.drop 0).take 4)
  month : t.month.toNat = digitLoop 0 ((s.drop 4).take 2)
  day : t.day.toNat = digitLoop 0 ((s.drop 6).take 2)
  hour : t.hour.toNat = digitLoop 0 ((s.drop 9).take 2)
  minute : t.minute.toNat = digitLoop 0 ((s.drop 11).take 2)
  second : t.second.toNat = digitLoop 0 ((s.drop 13).take 2)

/-- The casts to 16 and to 8 bits lose no digit. -/
theorem readsExactly {s : Bytes} (h : 15 ≤ s.length) :
    ReadsExactly s (parsePlaybackTimeCompact s) := by
  unfold parsePlaybackTimeCompact
  rw [if_neg (Nat.not_lt.mpr h)]
  constructor
  · exact UInt16.toNat_ofNat_of_lt' ((field_lt s 0 4).trans (by decide))
  all_goals exact UInt8.toNat_ofNat_of_lt' ((field_lt s _ 2).trans (by decide))

/-- The codec on one input, of the grammar or not. -/
structure RoundTrips (s : Bytes) : Prop where
  same : isCompactBytes s = true → utf8 (formatPlaybackTime (parsePlaybackTimeCompact s)) = s
  length : (formatPlaybackTime (parsePlaybackTimeCompact s)).toList.length = 15
  grammar : isCompactBytes (utf8 (formatPlaybackTime (parsePlaybackTimeCompact s))) = true
  again : parsePlaybackTimeCompact (utf8 (formatPlaybackTime (parsePlaybackTimeCompact s))) =
    parsePlaybackTimeCompact s
  casts : 15 ≤ s.length → ReadsExactly s (parsePlaybackTimeCompact s)
  /-- The buffer holds the whole text. -/
  buffer : (formatPlaybackTime (parsePlaybackTimeCompact s)).toList =
    timeDigits (parsePlaybackTimeCompact s)

/-- **Round trip**, for every text whatsoever. -/
theorem roundTrips (s : Bytes) : RoundTrips s := by
  have hprint := parse_printable s
  constructor
  · intro h
    obtain ⟨t, ht, rfl⟩ := exists_utf8_of_isCompactBytes h
    rw [formatPlaybackTime_parse ht]
  · exact length_formatPlaybackTime hprint
  · exact isCompactBytes_utf8 (isCompactTime_formatPlaybackTime hprint)
  · exact parse_formatPlaybackTime hprint
  · exact readsExactly
  · exact toList_formatPlaybackTime hprint

/-! ## Malformed texts -/

/-- The digit loop gives 0 for this field: a byte is not a digit, or all are zeros. -/
def ReadsZero (field : Bytes) : Prop :=
  (∃ c ∈ field, isDigitByte c = false) ∨ ∀ c ∈ field, c = 48

theorem digitLoop_eq_zero {v : ℕ} {cs : Bytes} :
    digitLoop v cs = 0 ↔ (∃ c ∈ cs, isDigitByte c = false) ∨ v = 0 ∧ ∀ c ∈ cs, c = 48 := by
  induction cs generalizing v with
  | nil => simp [digitLoop]
  | cons c cs ih =>
    have hiff : c < 48 ∨ 57 < c ↔ isDigitByte c = false := by
      rw [← Bool.not_eq_true, isDigitByte_iff, UInt8.lt_iff_toNat_lt, UInt8.lt_iff_toNat_lt]
      show c.toNat < 48 ∨ 57 < c.toNat ↔ _
      omega
    unfold digitLoop
    cases hc : isDigitByte c with
    | false =>
      rw [if_pos (hiff.mpr hc)]
      exact iff_of_true rfl (Or.inl ⟨c, List.mem_cons_self, hc⟩)
    | true =>
      obtain ⟨hlo, hhi⟩ := isDigitByte_iff.mp hc
      have hzero : v * 10 + (c.toNat - 48) = 0 ↔ v = 0 ∧ c = 48 := by
        rw [← UInt8.toNat_inj]
        show _ ↔ v = 0 ∧ c.toNat = 48
        omega
      rw [if_neg (by rw [hiff, hc]; decide), ih, hzero]
      simp only [List.mem_cons, exists_eq_or_imp, forall_eq_or_imp, hc, Bool.true_eq_false,
        false_or, and_assoc]

/-- The fields of the text by place and length. -/
def timeFields : List (ℕ × ℕ) := [(0, 4), (4, 2), (6, 2), (9, 2), (11, 2), (13, 2)]

theorem parse_eq_zero_iff {s : Bytes} : parsePlaybackTimeCompact s = {} ↔
    s.length < 15 ∨ ∀ f ∈ timeFields, ReadsZero ((s.drop f.1).take f.2) := by
  by_cases hlen : s.length < 15
  · rw [parsePlaybackTimeCompact, if_pos hlen]
    exact iff_of_true rfl (Or.inl hlen)
  obtain ⟨hy, hmo, hd, hh, hmi, hs⟩ := readsExactly (Nat.not_lt.mp hlen)
  have hzero : ∀ field, ReadsZero field ↔ digitLoop 0 field = 0 := by
    intro field
    rw [digitLoop_eq_zero, eq_self, true_and]
    rfl
  rw [or_iff_right hlen]
  simp only [timeFields, List.forall_mem_cons, List.not_mem_nil, hzero, ← hy, ← hmo, ← hd, ← hh,
    ← hmi, ← hs]
  generalize parsePlaybackTimeCompact s = t
  cases t
  simp only [PlaybackTime.mk.injEq, ← UInt16.toNat_inj, ← UInt8.toNat_inj]
  simp

/-- A text outside the grammar gives the all-zero time exactly when it is too short or
reads zero in each of its six fields. -/
theorem malformed_zero_iff (s : Bytes) :
    (isCompactBytes s = false → parsePlaybackTimeCompact s = {}) ↔
      isCompactBytes s = true ∨ s.length < 15 ∨
        ∀ f ∈ timeFields, ReadsZero ((s.drop f.1).take f.2) := by
  rw [parse_eq_zero_iff]
  cases isCompactBytes s with
  | true => simp
  | false => simp

/-- A separator that is not there. -/
theorem not_malformed_zero : ¬ ∀ s, isCompactBytes s = false → parsePlaybackTimeCompact s = {} := by
  intro hall
  exact absurd (hall (utf8 "20240101X000000") (by decide)) (by decide)

end VisionPlayback
