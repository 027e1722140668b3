import VisionPlayback.TimeCodec

/-!
# The hash input of a cache key

The text that is hashed names one recording. The address is not validated and
may hold any separator, so the text is decoded from the right: the times have a
fixed width, and neither the channel nor the port holds the character before it.
-/

namespace VisionPlayback

open Lib.Decimal

theorem toList_keyInput (c : Credentials) (ch : Channel) (r : TimeRange) :
    (keyInput c ch r).toList = c.ip.toList ++ ':' :: ((toString c.port.toNat).toList ++ '/' :: 'c' ::
      'h' :: ((toString ch.id.toInt).toList ++ '/' :: ((formatPlaybackTime r.begin).toList ++
        '-' :: (formatPlaybackTime r.end_).toList))) := by
  have hcolon : ":".toList = [':'] := by decide
  have hch : "/ch".toList = ['/', 'c', 'h'] := by decide
  have hslash : "/".toList = ['/'] := by decide
  have hminus : "-".toList = ['-'] := by decide
  simp only [keyInput, String.toList_append, hcolon, hch, hslash, hminus, List.append_assoc,
    List.cons_append, List.nil_append]

/-- The text of a request can be read back, whatever the address is. -/
theorem keyInput_inj {c c' : Credentials} {ch ch' : Channel} {r r' : TimeRange}
    (hb : r.begin.Printable) (he : r.end_.Printable) (hb' : r'.begin.Printable)
    (he' : r'.end_.Printable) (h : keyInput c ch r = keyInput c' ch' r') :
    c.ip = c'.ip ∧ c.port = c'.port ∧ ch.id = ch'.id ∧ r.begin = r'.begin ∧ r.end_ = r'.end_ := by
  have hlist := congrArg String.toList h
  rw [toList_keyInput, toList_keyInput] at hlist
  -- the two times and the separators before them have a fixed length
  have hassoc : ∀ (ip port chan b e : List Char), ip ++ ':' :: (port ++ '/' :: 'c' :: 'h' ::
      (chan ++ '/' :: (b ++ '-' :: e))) =
        (ip ++ ':' :: (port ++ ['/', 'c'])) ++ 'h' :: chan ++ ('/' :: b) ++ ('-' :: e) := by
    intro ip port chan b e
    simp only [List.append_assoc, List.cons_append, List.nil_append]
  rw [hassoc, hassoc] at hlist
  have hlenb : (formatPlaybackTime r.begin).toList.length =
      (formatPlaybackTime r'.begin).toList.length := by
    rw [length_formatPlaybackTime hb, length_formatPlaybackTime hb']
  have hlene : (formatPlaybackTime r.end_).toList.length =
      (formatPlaybackTime r'.end_).toList.length := by
    rw [length_formatPlaybackTime he, length_formatPlaybackTime he']
  obtain ⟨hlist, hend⟩ := List.append_inj' hlist (congrArg Nat.succ hlene)
  obtain ⟨hlist, hbegin⟩ := List.append_inj' hlist (congrArg Nat.succ hlenb)
  -- the channel holds no `h`
  have hchan : ∀ i : ℤ, 'h' ∉ (toString i).toList := by
    intro i hmem
    rcases mem_intToString hmem with h | h
    · exact absurd h (by decide)
    · exact absurd h (by decide)
  obtain ⟨hlist, hid⟩ := append_cons_inj_of_last hlist (hchan _) (hchan _)
  -- the port holds no `:`
  have hport : ∀ n : ℕ, ':' ∉ (toString n).toList ++ ['/', 'c'] := by
    intro n hmem
    rcases List.mem_append.mp hmem with h | h
    · exact absurd (isDigit_of_mem_toString h) (by decide)
    · exact absurd h (by decide)
  obtain ⟨hip, hlist⟩ := append_cons_inj_of_last hlist (hport _) (hport _)
  have hnum := List.append_cancel_right hlist
  refine ⟨String.toList_inj.mp hip, ?_, ?_, ?_, ?_⟩
  · exact UInt16.toNat_inj.mp (toString_inj (String.toList_inj.mp hnum))
  · exact Int32.toInt_inj.mp (intToString_inj (String.toList_inj.mp hid))
  · exact formatPlaybackTime_inj hb hb' (String.toList_inj.mp (List.cons.inj hbegin).2)
  · exact formatPlaybackTime_inj he he' (String.toList_inj.mp (List.cons.inj hend).2)

/-- **The hash input identifies the recording**, and two recordings have one key only
where the cut digests of their two different texts agree. -/
theorem keyInput_identifies (c c' : Credentials) (ch ch' : Channel) (b e b' e' : Bytes) :
    let r : TimeRange := ⟨parsePlaybackTimeCompact b, parsePlaybackTimeCompact e⟩
    let r' : TimeRange := ⟨parsePlaybackTimeCompact b', parsePlaybackTimeCompact e'⟩
    (keyInput c ch r = keyInput c' ch' r' ↔
      c.ip = c'.ip ∧ c.port = c'.port ∧ ch.id = ch'.id ∧ r.begin = r'.begin ∧
        r.end_ = r'.end_) ∧
    ∀ hasher : Hasher, makePlaybackKey c ch r hasher = makePlaybackKey c' ch' r' hasher →
      ¬ (c.ip = c'.ip ∧ c.port = c'.port ∧ ch.id = ch'.id ∧ r.begin = r'.begin ∧
        r.end_ = r'.end_) →
      keyInput c ch r ≠ keyInput c' ch' r' ∧
        (hasher.hexDigest (keyInput c ch r)).toList.take 16 =
          (hasher.hexDigest (keyInput c' ch' r')).toList.take 16 := by
  intro r r'
  have hinj : keyInput c ch r = keyInput c' ch' r' →
      c.ip = c'.ip ∧ c.port = c'.port ∧ ch.id = ch'.id ∧ r.begin = r'.begin ∧ r.end_ = r'.end_ :=
    keyInput_inj (parse_printable b) (parse_printable e) (parse_printable b') (parse_printable e')
  refine ⟨⟨hinj, ?_⟩, ?_⟩
  · rintro ⟨hip, hport, hid, hbegin, hend⟩
    rw [keyInput, keyInput, hip, hport, hid, hbegin, hend]
  · intro hasher hkey hne
    refine ⟨mt hinj hne, ?_⟩
    exact String.ofList_inj.mp (congrArg PlaybackKey.hex hkey)

end VisionPlayback
