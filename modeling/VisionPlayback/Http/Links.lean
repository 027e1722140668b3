import VisionPlayback.Http.Mirror
import VisionPlayback.Http.Server
import VisionPlayback.Http.StaticFiles
import VisionPlayback.Lib.Decimal
import VisionPlayback.Lib.Url
import VisionPlayback.Session

/-!
# The links that the answers carry

A client needs no more than the links: the one in the answer to a POST leads to the poll
of its key, the one in an answer of ready leads to the manifest of the key, and beside it
to every file of the package.
-/

namespace VisionPlayback

open Lib Lib.Replica Lib.Router StreamCache

/-! ## What ready was announced with -/

namespace Daemon

variable {cfg : DaemonConfig} {d d' : Daemon}

/-- The link goes with the key, and the key names a directory. -/
def LinksTo (cfg : DaemonConfig) (hex url : String) : Prop :=
  isHex16 hex = true ∧ url = mpdUrl ⟨hex⟩ cfg.processor.hostBase

structure Announced (cfg : DaemonConfig) (d : Daemon) : Prop where
  sent : ∀ hex url, .statusChanged hex .ready url ∈ d.toHttp → LinksTo cfg hex url
  cached : ∀ hex, d.listener.statusCache.lookup hex = some .ready →
    ∃ url, d.listener.mpdUrlCache.lookup hex = some url ∧ LinksTo cfg hex url

theorem Announced.start (disk : Disk) : Announced cfg (start disk) where
  sent hex url h := by cases h
  cached hex h := by cases h

/-- A slot announces a key as ready with the link to its manifest. -/
theorem linksTo_of_call {b : Machine.Action} {m m' : Machine} {hex url : String}
    (hn : Machine.Named m) (h : Machine.step cfg.processor b m = some m')
    (hc : .emit (.statusChanged hex .ready url) ∈ m'.calls) : LinksTo cfg hex url := by
  obtain ⟨env, e, q, -, hq, -, hcalled⟩ := Machine.called_of_step h hc
  cases hcalled with
  | @readyNow r hdash =>
    refine ⟨hn.posts r ?_, rfl⟩
    rw [hq]
    exact List.mem_cons_self
  | packaged hjob => exact ⟨hn.jobs _ hjob, rfl⟩
  | status hs => exact absurd hs (by decide)

theorem Announced.heard {hex url : String} {status : StreamStatus} {q : List Signal}
    (hi : Announced cfg d) (hq : d.toHttp = .statusChanged hex status url :: q) :
    ∀ hex', (d.listener.onStatusChanged hex status url).statusCache.lookup hex' = some .ready →
      ∃ url', (d.listener.onStatusChanged hex status url).mpdUrlCache.lookup hex' = some url' ∧
        LinksTo cfg hex' url' := by
  intro hex' h
  simp only [Listener.onStatusChanged, Table.lookup_insert_eq] at h ⊢
  by_cases hhex : hex' = hex
  · rw [if_pos hhex] at h
    obtain rfl := Option.some.inj h
    rw [if_pos rfl, hhex, AList.lookup_insert]
    refine ⟨url, rfl, hi.sent hex url ?_⟩
    rw [hq]
    exact List.mem_cons_self
  · rw [if_neg hhex] at h
    obtain ⟨url', hurl, hlinks⟩ := hi.cached hex' h
    refine ⟨url', ?_, hlinks⟩
    split
    · rw [AList.lookup_insert_ne hhex]
      exact hurl
    · exact hurl

theorem Announced.step {a : Action} (hi : Announced cfg d) (hn : Machine.Named d.machine)
    (h : step cfg a d = some d') : Announced cfg d' := by
  cases stepped h with
  | postRejected | downloadRejected => exact hi
  | posted | dashGet | accepted => exact ⟨hi.sent, hi.cached⟩
  | heard hq =>
    refine ⟨fun hex url hmem => hi.sent hex url ?_, hi.heard hq⟩
    rw [hq]
    exact List.mem_cons_of_mem _ hmem
  | unmatched hq hp =>
    refine ⟨fun hex url hmem => hi.sent hex url ?_, hi.cached⟩
    rw [hq]
    exact List.mem_cons_of_mem _ hmem
  | answered hq hp hm =>
    refine ⟨fun hex url hmem => hi.sent hex url ?_, hi.cached⟩
    rw [hq]
    exact List.mem_cons_of_mem _ hmem
  | @worked b machine hb hs =>
    refine ⟨fun hex url hmem => ?_, hi.cached⟩
    rcases List.mem_append.mp hmem with hmem | hmem
    · exact hi.sent hex url hmem
    · obtain ⟨c, hc, he⟩ := List.mem_filterMap.mp hmem
      cases c with
      | emit signal =>
        obtain rfl := Option.some.inj he
        exact linksTo_of_call hn hs hc
      | auth | emplaceJob | startDownload | package | exportClip | removed => cases he

end Daemon

/-! ## A client that follows links -/

section Links

variable {port : UInt16} {hex name : String} {dec : Decoder} {cfg : DaemonConfig}

end Links

/-! ## From the POST to the files -/

namespace Server

variable {dec : Decoder} {algorithms : Algorithms} {args : CommandLine} {cfg : DaemonConfig}
  {disk : Disk} {s : Server}

namespace Sample

def config : DaemonConfig :=
  (Session.configure Session.Sample.algorithms {}).get rfl

def packaged : Disk :=
  { dirs := AList.insert "00000000000000aa" (Machine.Sample.package 5) ∅ }

end Sample

end Server

end VisionPlayback
