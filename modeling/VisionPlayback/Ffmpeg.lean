import VisionPlayback.Processor.Handlers

/-!
# The ffmpeg command line of an export

The arguments of the clip exporter's process, on the 32-bit integers that reach it.
-/

namespace VisionPlayback

namespace FfmpegClipExporter

/-- Both offsets are optional: not positive means from the start, or to the end. -/
def exportClip (mpdPath outputPath : String) (startSec endSec : Int32) : List String :=
  let begin : Int32 := if startSec > 0 then startSec else 0
  ["-y"] ++ (if begin > 0 then ["-ss", toString begin.toInt] else []) ++ ["-i", mpdPath] ++
    (if endSec > 0 then ["-t", toString (endSec - begin).toInt] else []) ++
    ["-c", "copy", "-movflags", "+faststart", outputPath]

/-- The duration is the exact difference, whatever the two offsets are. -/
theorem exportClip_eq (mpdPath outputPath : String) (startSec endSec : Int32) :
    exportClip mpdPath outputPath startSec endSec =
      ["-y"] ++ (if 0 < startSec.toInt then ["-ss", toString startSec.toInt] else []) ++
        ["-i", mpdPath] ++
        (if 0 < endSec.toInt then ["-t", toString (endSec.toInt - max startSec.toInt 0)] else []) ++
        ["-c", "copy", "-movflags", "+faststart", outputPath] := by
  have hpos : ∀ v : Int32, v > 0 ↔ 0 < v.toInt := fun v => Int32.lt_iff_toInt_lt
  have hstart := startSec.le_toInt
  have hstart' := startSec.toInt_lt
  have hend' := endSec.toInt_lt
  have hbegin : (if startSec > 0 then startSec else 0 : Int32).toInt = max startSec.toInt 0 := by
    split
    · next h =>
      rw [hpos] at h
      omega
    · next h =>
      rw [hpos] at h
      show (0 : ℤ) = _
      omega
  have hsub : 0 < endSec.toInt →
      (endSec - if startSec > 0 then startSec else 0).toInt =
        endSec.toInt - max startSec.toInt 0 := by
    intro hend
    rw [Int32.toInt_sub, hbegin]
    exact Int.bmod_eq_of_le (by omega) (by omega)
  have hseek : (if startSec > 0 then startSec else 0 : Int32) > 0 ↔ 0 < startSec.toInt := by
    rw [hpos, hbegin]
    omega
  unfold exportClip
  dsimp only
  congr 2
  · congr 2
    by_cases h : 0 < startSec.toInt
    · rw [if_pos (hseek.mpr h), if_pos h, hbegin, max_eq_left h.le]
    · rw [if_neg (mt hseek.mp h), if_neg h]
  · by_cases h : 0 < endSec.toInt
    · rw [if_pos ((hpos _).mpr h), if_pos h, hsub h]
    · rw [if_neg (mt (hpos _).mp h), if_neg h]

end FfmpegClipExporter

/-- What an exporter that the processor has started runs ffmpeg with. -/
def ClipExport.arguments (w : ClipExport) : List String :=
  FfmpegClipExporter.exportClip w.mpdPath w.outputPath (.ofInt w.startSec) (.ofInt w.endSec)

end VisionPlayback
