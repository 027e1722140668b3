import VisionPlayback.Ffmpeg
import VisionPlayback.Http.Daemon
import VisionPlayback.Lib.Decimal

/-!
# The window of a download

From the query items to the arguments of ffmpeg and to the name of the file. An
absent bound travels as -1 and is read as not positive.
-/

namespace VisionPlayback

open Lib Lib.Decimal StreamCache

namespace QueryItem

/-- The value of an item that is there and reads as an integer. -/
def value : QueryItem → Option ℤ
  | .absent | .notInt => none
  | .int v => some v.toInt

end QueryItem

namespace Listener

/-- A start that is not an integer from 0 on, an end that is not one from 1 on, or an end
that is not after the start. -/
def BadWindow (start stop : QueryItem) : Prop :=
  (start.has = true ∧ ∀ s, start.value = some s → s < 0) ∨
  (stop.has = true ∧ ∀ e, stop.value = some e → e < 1) ∨
  ∃ s e, start.value = some s ∧ stop.value = some e ∧ e ≤ s

/-- The name of the file a download is sent as. -/
def filename (hash : String) (start stop : QueryItem) : String :=
  "playback-" ++ hash ++
    (if start.has || stop.has then
      "-" ++ toString (start.value.getD 0) ++ "s" ++
        if stop.has then "-" ++ toString (stop.value.getD 0) ++ "s" else ""
    else "") ++ ".mp4"

theorem int32_lt_zero {v : Int32} : v < 0 ↔ v.toInt < 0 := Int32.lt_iff_toInt_lt

theorem int32_le_zero {v : Int32} : v ≤ 0 ↔ v.toInt < 1 := by
  rw [Int32.le_iff_toInt_le, Int.lt_iff_add_one_le]
  show v.toInt ≤ 0 ↔ v.toInt + 1 ≤ 1
  omega

/-- The start of a query, as the route checks it. -/
theorem badStart_iff (start : QueryItem) :
    (start.has && (!start.ok || start.toInt < 0)) = true ↔
      start.has = true ∧ ∀ s, start.value = some s → s < 0 := by
  cases start with
  | absent => simp [QueryItem.has]
  | notInt => simp [QueryItem.has, QueryItem.ok, QueryItem.value]
  | int v => simp [QueryItem.has, QueryItem.ok, QueryItem.toInt, QueryItem.value, int32_lt_zero]

theorem badEnd_iff (stop : QueryItem) :
    (stop.has && (!stop.ok || stop.toInt ≤ 0)) = true ↔
      stop.has = true ∧ ∀ e, stop.value = some e → e < 1 := by
  cases stop with
  | absent => simp [QueryItem.has]
  | notInt => simp [QueryItem.has, QueryItem.ok, QueryItem.value]
  | int v => simp [QueryItem.has, QueryItem.ok, QueryItem.toInt, QueryItem.value, int32_le_zero]

/-- An item that is not refused is absent or an integer. -/
theorem value_of_has {item : QueryItem} {bound : ℤ}
    (h : ¬ (item.has = true ∧ ∀ v, item.value = some v → v < bound)) (hhas : item.has = true) :
    item.value = some item.toInt.toInt ∧ bound ≤ item.toInt.toInt := by
  cases item with
  | absent => cases hhas
  | notInt => exact absurd ⟨rfl, fun _ hv => nomatch hv⟩ h
  | int v =>
    refine ⟨rfl, Int.not_lt.mp fun hlt => h ⟨rfl, fun u hu => ?_⟩⟩
    obtain rfl := Option.some.inj hu
    exact hlt

theorem value_of_not_has {item : QueryItem} (h : item.has = false) : item.value = none := by
  cases item with
  | absent => rfl
  | notInt | int => cases h

theorem has_of_value {item : QueryItem} {v : ℤ} (h : item.value = some v) : item.has = true := by
  cases item with
  | int => rfl
  | absent | notInt => cases h

/-- Two items that are not refused, as the route compares them. -/
theorem badOrder_iff {start stop : QueryItem} {a b : ℤ}
    (hstart : ¬ (start.has = true ∧ ∀ s, start.value = some s → s < a))
    (hstop : ¬ (stop.has = true ∧ ∀ e, stop.value = some e → e < b)) :
    (start.has && stop.has && stop.toInt ≤ start.toInt) = true ↔
      ∃ s e, start.value = some s ∧ stop.value = some e ∧ e ≤ s := by
  rw [Bool.and_eq_true, Bool.and_eq_true, decide_eq_true_eq, Int32.le_iff_toInt_le]
  constructor
  · rintro ⟨⟨hs, he⟩, hle⟩
    exact ⟨_, _, (value_of_has hstart hs).1, (value_of_has hstop he).1, hle⟩
  · rintro ⟨s, e, hs, he, hle⟩
    have hhs := has_of_value hs
    have hhe := has_of_value he
    obtain rfl := Option.some.inj ((value_of_has hstart hhs).1.symm.trans hs)
    obtain rfl := Option.some.inj ((value_of_has hstop hhe).1.symm.trans he)
    exact ⟨⟨hhs, hhe⟩, hle⟩

/-- The checks of the download route, for a hash that is well formed. -/
theorem checkDownload_eq {hash : String} (h : matchesHex16 hash = true) (start stop : QueryItem) :
    (BadWindow start stop ∧ ∃ message,
      checkDownload hash start stop = .error (json 400 (serializeError message))) ∨
    (¬ BadWindow start stop ∧ checkDownload hash start stop =
      .ok (⟨hash, start.value.getD (-1), stop.value.getD (-1)⟩, filename hash start stop)) := by
  unfold checkDownload
  rw [if_neg (by rw [h]; decide)]
  dsimp only
  by_cases hstart : start.has = true ∧ ∀ s, start.value = some s → s < 0
  · rw [if_pos ((badStart_iff start).mpr hstart)]
    exact Or.inl ⟨Or.inl hstart, _, rfl⟩
  rw [if_neg (mt (badStart_iff start).mp hstart)]
  by_cases hstop : stop.has = true ∧ ∀ e, stop.value = some e → e < 1
  · rw [if_pos ((badEnd_iff stop).mpr hstop)]
    exact Or.inl ⟨Or.inr (Or.inl hstop), _, rfl⟩
  rw [if_neg (mt (badEnd_iff stop).mp hstop)]
  -- both items are absent or good by now
  have horder := badOrder_iff hstart hstop
  by_cases hwindow : ∃ s e, start.value = some s ∧ stop.value = some e ∧ e ≤ s
  · rw [if_pos (horder.mpr hwindow)]
    exact Or.inl ⟨Or.inr (Or.inr hwindow), _, rfl⟩
  rw [if_neg (mt horder.mp hwindow)]
  refine Or.inr ⟨?_, ?_⟩
  · rintro (hs | he | hw)
    · exact hstart hs
    · exact hstop he
    · exact hwindow hw
  · unfold filename
    cases hs : start.has with
    | false =>
      rw [value_of_not_has hs]
      cases he : stop.has with
      | false => rw [value_of_not_has he]; rfl
      | true => rw [(value_of_has hstop he).1]; rfl
    | true =>
      rw [(value_of_has hstart hs).1]
      cases he : stop.has with
      | false => rw [value_of_not_has he]; rfl
      | true => rw [(value_of_has hstop he).1]; rfl

/-! ## The name of the file -/

theorem value_of_not_bad {start stop : QueryItem} (h : ¬ BadWindow start stop) :
    (start.has = true → start.value = some start.toInt.toInt ∧ 0 ≤ start.toInt.toInt) ∧
    (stop.has = true → stop.value = some stop.toInt.toInt ∧ 1 ≤ stop.toInt.toInt) ∧
    ∀ s e, start.value = some s → stop.value = some e → s < e :=
  ⟨value_of_has fun hs => h (Or.inl hs), value_of_has fun he => h (Or.inr (Or.inl he)),
    fun s e hs he => Int.not_le.mp fun hle => h (Or.inr (Or.inr ⟨s, e, hs, he, hle⟩))⟩

/-- The first offset of a window is not negative. -/
theorem getD_value_nonneg {start stop : QueryItem} (h : ¬ BadWindow start stop) :
    0 ≤ start.value.getD 0 := by
  cases hs : start.has with
  | false => rw [value_of_not_has hs]; exact le_refl 0
  | true =>
    obtain ⟨hvalue, hge⟩ := (value_of_not_bad h).1 hs
    rw [hvalue]
    exact hge

theorem notMem_dash_of_matchesHex16 {s : String} (h : matchesHex16 s = true) :
    '-' ∉ s.toList := by
  have hhex : ∀ l : List Char, l.all isHexDigit = true → '-' ∉ l := by
    intro l hall hmem
    exact absurd (List.all_eq_true.mp hall _ hmem) (by decide)
  simp only [matchesHex16, isHex16, Bool.or_eq_true, Bool.and_eq_true, decide_eq_true_eq] at h
  intro hmem
  rcases h with ⟨-, hall⟩ | ⟨⟨-, hall⟩, hlast⟩
  · exact hhex _ hall hmem
  · rw [← List.take_append_drop 16 s.toList, hlast, List.mem_append, List.mem_singleton] at hmem
    rcases hmem with hmem | hmem
    · exact hhex _ hall hmem
    · exact absurd hmem (by decide)

/-- The part of the name that tells the window: the first offset and the rest. -/
def windowChars (start stop : QueryItem) : List Char :=
  (toString (start.value.getD 0)).toList ++ 's' ::
    if stop.has then '-' :: ((toString (stop.value.getD 0)).toList ++ ['s']) else []

theorem toList_filename (hash : String) (start stop : QueryItem) :
    (filename hash start stop).toList = "playback-".toList ++ (hash.toList ++
      (if start.has || stop.has then '-' :: windowChars start stop else [])) ++ ".mp4".toList := by
  have hdash : "-".toList = ['-'] := by decide
  have hs : "s".toList = ['s'] := by decide
  unfold filename windowChars
  cases start.has <;> cases stop.has <;>
    simp [String.toList_append, hdash, hs, List.append_assoc]

theorem windowChars_inj {start stop start' stop' : QueryItem} (h : ¬ BadWindow start stop)
    (h' : ¬ BadWindow start' stop') (he : windowChars start stop = windowChars start' stop') :
    start.value.getD 0 = start'.value.getD 0 ∧ stop.value = stop'.value := by
  have hdigits : ∀ i : ℤ, 's' ∉ (toString i).toList := by
    intro i hmem
    rcases mem_intToString hmem with hc | hc
    · exact absurd hc (by decide)
    · exact absurd hc (by decide)
  obtain ⟨hfrom, hto⟩ := append_cons_inj_of_first he (hdigits _) (hdigits _)
  refine ⟨intToString_inj (String.toList_inj.mp hfrom), ?_⟩
  cases hs : stop.has with
  | false =>
    cases hs' : stop'.has with
    | false => rw [value_of_not_has hs, value_of_not_has hs']
    | true => rw [hs, hs'] at hto; cases hto
  | true =>
    cases hs' : stop'.has with
    | false => rw [hs, hs'] at hto; cases hto
    | true =>
      rw [hs, hs'] at hto
      have hlist := List.append_cancel_right (List.cons.inj hto).2
      have hvalue := intToString_inj (String.toList_inj.mp hlist)
      rw [((value_of_not_bad h).2.1 hs).1, ((value_of_not_bad h').2.1 hs').1] at hvalue ⊢
      exact congrArg some hvalue

/-- Names of accepted downloads agree only for one recording and one window. -/
theorem filename_inj {hash hash' : String} {start stop start' stop' : QueryItem}
    (hhash : matchesHex16 hash = true) (hhash' : matchesHex16 hash' = true)
    (h : ¬ BadWindow start stop) (h' : ¬ BadWindow start' stop')
    (he : filename hash start stop = filename hash' start' stop') :
    hash = hash' ∧ start.value.getD 0 = start'.value.getD 0 ∧ stop.value = stop'.value := by
  have hlist := congrArg String.toList he
  rw [toList_filename, toList_filename] at hlist
  have hlist := List.append_cancel_left (List.append_cancel_right hlist)
  have hdash := notMem_dash_of_matchesHex16 hhash
  have hdash' := notMem_dash_of_matchesHex16 hhash'
  -- the hash ends at the first dash, if there is one
  cases hhas : start.has || stop.has with
  | false =>
    cases hhas' : start'.has || stop'.has with
    | false =>
      rw [hhas, hhas'] at hlist
      obtain ⟨hs, hp⟩ := Bool.or_eq_false_iff.mp hhas
      obtain ⟨hs', hp'⟩ := Bool.or_eq_false_iff.mp hhas'
      rw [value_of_not_has hs, value_of_not_has hs', value_of_not_has hp, value_of_not_has hp']
      exact ⟨String.toList_inj.mp (List.append_cancel_right hlist), rfl, rfl⟩
    | true =>
      rw [hhas, hhas'] at hlist
      rw [← List.append_nil hash.toList] at hdash
      exact absurd (hlist ▸ List.mem_append_right _ List.mem_cons_self) hdash
  | true =>
    cases hhas' : start'.has || stop'.has with
    | false =>
      rw [hhas, hhas'] at hlist
      rw [← List.append_nil hash'.toList] at hdash'
      exact absurd (hlist ▸ List.mem_append_right _ List.mem_cons_self) hdash'
    | true =>
      rw [hhas, hhas'] at hlist
      obtain ⟨hsame, hwindow⟩ := append_cons_inj_of_first hlist hdash hdash'
      exact ⟨String.toList_inj.mp hsame, windowChars_inj h h' hwindow⟩

end Listener

/-! ## The trip to ffmpeg -/

open Listener

/-- An absent bound travels as -1. -/
def sentStart (start : QueryItem) : ℤ := start.value.getD (-1)

def sentEnd (stop : QueryItem) : ℤ := stop.value.getD (-1)

/-- The length of a window from its start to its end, where it has one. -/
def duration (start stop : QueryItem) : Option ℤ :=
  stop.value.map fun e => e - start.value.getD 0

theorem ofInt_sent {item : QueryItem} (h : item.has = true → item.value = some item.toInt.toInt) :
    (Int32.ofInt (item.value.getD (-1))).toInt = item.value.getD (-1) := by
  cases hhas : item.has with
  | false => rw [value_of_not_has hhas]; rfl
  | true =>
    rw [h hhas]
    exact Int32.toInt_ofInt_of_le (Int32.le_toInt _) (Int32.toInt_lt _)

/-- -1 and no start at all are the same to ffmpeg. -/
theorem sentStart_eq {start stop : QueryItem} (h : ¬ BadWindow start stop) :
    max (sentStart start) 0 = start.value.getD 0 ∧
      (0 < start.value.getD 0 → sentStart start = start.value.getD 0) := by
  unfold sentStart
  cases hs : start.has with
  | false =>
    rw [value_of_not_has hs]
    decide
  | true =>
    obtain ⟨hvalue, hge⟩ := (value_of_not_bad h).1 hs
    rw [hvalue]
    exact ⟨max_eq_left hge, fun _ => rfl⟩

theorem seek_sentStart {start stop : QueryItem} (h : ¬ BadWindow start stop) :
    (if 0 < sentStart start then ["-ss", toString (sentStart start)] else []) =
      if 0 < start.value.getD 0 then ["-ss", toString (start.value.getD 0)] else [] := by
  obtain ⟨hmax, hsame⟩ := sentStart_eq h
  by_cases hpos : 0 < start.value.getD 0
  · rw [if_pos hpos, hsame hpos, if_pos hpos]
  · rw [if_neg hpos, if_neg (by omega)]

theorem length_sentEnd {start stop : QueryItem} (h : ¬ BadWindow start stop) :
    (if 0 < sentEnd stop then ["-t", toString (sentEnd stop - start.value.getD 0)] else []) =
      match duration start stop with
        | none => []
        | some t => ["-t", toString t] := by
  cases he : stop.has with
  | false =>
    rw [sentEnd, duration, value_of_not_has he]
    rfl
  | true =>
    obtain ⟨hvalue, hge⟩ := (value_of_not_bad h).2.1 he
    rw [sentEnd, duration, hvalue]
    exact if_pos (show 0 < stop.toInt.toInt by omega)

/-- The arguments of an accepted window. -/
theorem arguments_clipExport {start stop : QueryItem} (h : ¬ BadWindow start stop)
    (requestId : ℕ) (hash : String) :
    (Machine.clipExport requestId hash (sentStart start) (sentEnd stop)).arguments =
      ["-y"] ++ (if 0 < start.value.getD 0 then ["-ss", toString (start.value.getD 0)] else []) ++
        ["-i", Machine.manifestPath ⟨hash⟩] ++
        (match duration start stop with
          | none => []
          | some t => ["-t", toString t]) ++
        ["-c", "copy", "-movflags", "+faststart", Machine.exportPath requestId] := by
  obtain ⟨hstart, hstop, -⟩ := value_of_not_bad h
  have hfrom : (Int32.ofInt (sentStart start)).toInt = sentStart start :=
    ofInt_sent fun hs => (hstart hs).1
  have hto : (Int32.ofInt (sentEnd stop)).toInt = sentEnd stop :=
    ofInt_sent fun he => (hstop he).1
  show FfmpegClipExporter.exportClip _ _ (.ofInt (sentStart start)) (.ofInt (sentEnd stop)) = _
  rw [FfmpegClipExporter.exportClip_eq, hfrom, hto, seek_sentStart h, (sentStart_eq h).1,
    length_sentEnd h]
  rfl

/-- A window with an end is a positive number of seconds that fits 32 bits. -/
theorem duration_bounds {start stop : QueryItem} (h : ¬ BadWindow start stop) {t : ℤ}
    (ht : duration start stop = some t) : 1 ≤ t ∧ t < 2 ^ 31 := by
  obtain ⟨hstart, hstop, horder⟩ := value_of_not_bad h
  obtain ⟨e, he, rfl⟩ := Option.map_eq_some_iff.mp ht
  have hread := (hstop (has_of_value he)).1.symm.trans he
  have hpos : 1 ≤ e := Option.some.inj hread ▸ (hstop (has_of_value he)).2
  have hbound : e < 2 ^ 31 := Option.some.inj hread ▸ Int32.toInt_lt _
  have hnonneg := getD_value_nonneg h
  have hlt : start.value.getD 0 < e := by
    cases hs : start.has with
    | false => rw [value_of_not_has hs]; exact hpos
    | true =>
      rw [(hstart hs).1]
      exact horder _ _ (hstart hs).1 he
  omega

/-- An export of a recording that is there reaches the exporter at once. -/
theorem calls_exportRequested {hash : String} {m : Machine}
    (hdash : dashExists ⟨hash⟩ m.disk = true) (requestId : ℕ) (start stop : ℤ) :
    (Machine.onExportRequested requestId hash start stop m).calls =
      m.calls ++ [.exportClip (Machine.clipExport requestId hash start stop)] := by
  have hrun := Machine.exportRequested requestId hash start stop m
  generalize Machine.onExportRequested requestId hash start stop m = m' at hrun ⊢
  cases hrun with
  | notReady hnot => rw [hdash] at hnot; cases hnot
  | started => rfl

/-- **The window survives the trip.** A well-formed hash is rejected, with nothing changed,
exactly for a bad window; an accepted one reaches ffmpeg as the window it denotes, under a
name that no other recording or window has. -/
theorem clip_window {hash : String} (hhash : matchesHex16 hash = true) (start stop : QueryItem) :
    (BadWindow start stop → ∀ cfg d, Daemon.step cfg (.downloadGet hash start stop) d = some d) ∧
    (¬ BadWindow start stop →
      (∀ cfg d, ∃ d', Daemon.step cfg (.downloadGet hash start stop) d = some d' ∧
        d'.listener = d.listener.deferExport d.nextResponder (filename hash start stop) ∧
        d'.machine.queue = d.machine.queue ++ [.exportRequested d.listener.freshExportId hash
          (sentStart start) (sentEnd stop)]) ∧
      (∀ id m, dashExists ⟨hash⟩ m.disk = true →
        let w := Machine.clipExport id hash (sentStart start) (sentEnd stop)
        (Machine.onExportRequested id hash (sentStart start) (sentEnd stop) m).calls =
          m.calls ++ [.exportClip w] ∧
        w.arguments = ["-y"] ++
          (if 0 < start.value.getD 0 then ["-ss", toString (start.value.getD 0)] else []) ++
          ["-i", w.mpdPath] ++
          (match duration start stop with
            | none => []
            | some t => ["-t", toString t]) ++
          ["-c", "copy", "-movflags", "+faststart", w.outputPath]) ∧
      (∀ t, duration start stop = some t → 1 ≤ t ∧ t < 2 ^ 31) ∧
      ∀ hash' start' stop', matchesHex16 hash' = true → ¬ BadWindow start' stop' →
        filename hash start stop = filename hash' start' stop' →
        hash = hash' ∧ start.value.getD 0 = start'.value.getD 0 ∧ stop.value = stop'.value) := by
  constructor
  · intro hbad cfg d
    rcases checkDownload_eq hhash start stop with ⟨-, message, hcheck⟩ | ⟨hgood, -⟩
    · simp only [Daemon.step, hcheck]
    · exact absurd hbad hgood
  intro hgood
  refine ⟨?_, ?_, ?_, ?_⟩
  · intro cfg d
    rcases checkDownload_eq hhash start stop with ⟨hbad, -⟩ | ⟨-, hcheck⟩
    · exact absurd hbad hgood
    · simp only [Daemon.step, hcheck]
      exact ⟨_, rfl, rfl, rfl⟩
  · intro id m hdash w
    exact ⟨calls_exportRequested hdash id (sentStart start) (sentEnd stop),
      arguments_clipExport hgood id hash⟩
  · intro t ht
    exact duration_bounds hgood ht
  · intro hash' start' stop' hhash' hgood' hname
    exact filename_inj hhash hhash' hgood hgood' hname

/-- A window from the start of the recording to its fifth second. -/
theorem clip_window_five :
    (Machine.onExportRequested 1 "00000000000000aa" (sentStart .absent) (sentEnd (.int 5))
        { disk := { dirs := AList.insert "00000000000000aa" (Machine.Sample.package 1) ∅ } }).calls =
      [.exportClip (Machine.clipExport 1 "00000000000000aa" (-1) 5)] ∧
    (Machine.clipExport 1 "00000000000000aa" (-1) 5).arguments =
      ["-y", "-i", "00000000000000aa/manifest.mpd", "-t", "5", "-c", "copy", "-movflags",
        "+faststart", ".exports/1.mp4"] := by
  have hgood : ¬ BadWindow .absent (.int 5) := by
    rintro (⟨hs, -⟩ | ⟨-, he⟩ | ⟨s, e, hs, -⟩)
    · cases hs
    · exact absurd (he 5 rfl) (by decide)
    · cases hs
  exact ((clip_window (by decide) .absent (.int 5)).2 hgood).2.1 1 _ (by decide)

end VisionPlayback
