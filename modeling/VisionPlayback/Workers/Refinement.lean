import VisionPlayback.Lib.Refinement
import VisionPlayback.Lib.Roster
import VisionPlayback.Processor.Exports
import VisionPlayback.Workers.Plant

/-!
# The worker objects refine the workers

The system with the objects refines the one in which a worker is a name that ends
once, with any result: its processor is the same, and the workers that run are those
whose objects have not reported.
-/

namespace VisionPlayback

open Lib StreamCache

namespace Plant

/-! ## What holds of the objects -/

section

open HCNetSDKDownloader (Thread)
open FfmpegDashPackager (Waiting Done)

/-- A completion in the queue is the one report of an object that is through. -/
def Posted (p : Plant) : Event → Prop
  | .downloadFinished id key ok err => ∃ w t, p.threads.lookup id = some (w, t) ∧
      w.request.key = key ∧ t.reports = [(ok, err)]
  | .packageFinished id key ok err => ∃ w o r, p.packagers.lookup id = some (w, o) ∧
      w.key = key ∧ Done r o ∧ r.success = ok ∧ r.errorMessage = err
  | .exportDone id ok path err => ∃ w x r, p.exporters.lookup id = some (w, x) ∧
      Done r x.toPackager ∧ r.success = ok ∧ r.path = path ∧ r.errorMessage = err
  | .playbackRequested _ | .keyAccessed _ | .exportRequested _ _ _ _ => True

structure Sound (p : Plant) : Prop where
  threads : ∀ id w t, p.threads.lookup id = some (w, t) → id < p.processor.nextWorker ∧
    ((t.place ≠ .ended ∧ t.reports = []) ∨ (t.place = .ended ∧ ∃ r, t.reports = [r]))
  packagers : ∀ id w o, p.packagers.lookup id = some (w, o) → id < p.processor.nextWorker ∧
    (Waiting (w.outputDir ++ "/manifest.mpd") o ∨ ∃ r, Done r o)
  exporters : ∀ id w x, p.exporters.lookup id = some (w, x) → id ∈ p.processor.requestIds ∧
    id ∉ requestedIds p.processor.queue ∧
    (Waiting w.outputPath x.toPackager ∨ ∃ r, Done r x.toPackager)
  requests : (requestedIds p.processor.queue).Nodup
  known : ∀ id ∈ requestedIds p.processor.queue, id ∈ p.processor.requestIds
  posted : ∀ e ∈ p.processor.queue, Posted p e

/-- The abstract machine has the same processor, and lists the workers whose objects
have not reported yet. -/
structure Refines (p : Plant) (m : Machine) : Prop where
  processor : ∃ u calls, m = { p.processor.withUnread u with calls }
  downloaders : Roster (·.id) (fun t : Thread => t.place ≠ .ended) m.downloaders p.threads
  packagers : Roster (·.id) (fun o : FfmpegDashPackager => o.process.isSome = true)
    m.packagers p.packagers
  exporters : Roster (·.requestId) (fun x : FfmpegClipExporter => x.process.isSome = true)
    m.exporters p.exporters

variable {cfg : Config} {p p' : Plant} {m m' : Machine} {id : Nat}

theorem Refines.activeJobs_eq (h : Refines p m) : m.activeJobs = p.processor.activeJobs := by
  obtain ⟨u, calls, rfl⟩ := h.processor
  rfl

theorem Refines.queue_eq (h : Refines p m) : m.queue = p.processor.queue := by
  obtain ⟨u, calls, rfl⟩ := h.processor
  rfl

theorem refines_withUnread {u : Machine.Unread}
    (hd : Roster (·.id) (fun t : Thread => t.place ≠ .ended) u.downloaders p.threads)
    (hp : Roster (·.id) (fun o : FfmpegDashPackager => o.process.isSome = true) u.packagers
      p.packagers)
    (hx : Roster (·.requestId) (fun x : FfmpegClipExporter => x.process.isSome = true) u.exporters
      p.exporters) : Refines p (p.processor.withUnread u) :=
  ⟨⟨u, p.processor.calls, rfl⟩, hd, hp, hx⟩

/-- Objects that are through stay, and stay as they are. -/
structure Keeps (p p' : Plant) : Prop where
  threads : ∀ id w t r, p.threads.lookup id = some (w, t) → t.reports = [r] →
    ∃ t', p'.threads.lookup id = some (w, t') ∧ t'.reports = [r]
  packagers : ∀ id w o r, p.packagers.lookup id = some (w, o) → Done r o →
    ∃ o', p'.packagers.lookup id = some (w, o') ∧ Done r o'
  exporters : ∀ id w x r, p.exporters.lookup id = some (w, x) → Done r x.toPackager →
    ∃ x', p'.exporters.lookup id = some (w, x') ∧ Done r x'.toPackager

theorem Keeps.posted (h : Keeps p p') {e : Event} (he : Posted p e) : Posted p' e := by
  cases e with
  | downloadFinished id key ok err =>
    obtain ⟨w, t, hl, hkey, hr⟩ := he
    obtain ⟨t', hl', hr'⟩ := h.threads id w t _ hl hr
    exact ⟨w, t', hl', hkey, hr'⟩
  | packageFinished id key ok err =>
    obtain ⟨w, o, r, hl, hkey, hd, hok⟩ := he
    obtain ⟨o', hl', hd'⟩ := h.packagers id w o r hl hd
    exact ⟨w, o', r, hl', hkey, hd', hok⟩
  | exportDone id ok path err =>
    obtain ⟨w, x, r, hl, hd, hok⟩ := he
    obtain ⟨x', hl', hd'⟩ := h.exporters id w x r hl hd
    exact ⟨w, x', r, hl', hd', hok⟩
  | playbackRequested | keyAccessed | exportRequested => trivial

theorem keeps_of_tables (ht : p'.threads = p.threads) (hp : p'.packagers = p.packagers)
    (hx : p'.exporters = p.exporters) : Keeps p p' where
  threads id w t r hl hr := ⟨t, by rw [ht]; exact hl, hr⟩
  packagers id w o r hl hd := ⟨o, by rw [hp]; exact hl, hd⟩
  exporters id w x r hl hd := ⟨x, by rw [hx]; exact hl, hd⟩

/-- The queue takes completions that have been posted. -/
theorem Sound.posts {es : List Event} (hs : Sound p) (hk : Keeps p p')
    (hq : p'.processor.queue = p.processor.queue ++ es)
    (hn : p'.processor.nextWorker = p.processor.nextWorker)
    (hi : p'.processor.requestIds = p.processor.requestIds)
    (hes : ∀ e ∈ es, e.requestId? = none ∧ Posted p' e)
    (ht : ∀ id w t, p'.threads.lookup id = some (w, t) → id < p.processor.nextWorker ∧
      ((t.place ≠ .ended ∧ t.reports = []) ∨ (t.place = .ended ∧ ∃ r, t.reports = [r])))
    (hp : ∀ id w o, p'.packagers.lookup id = some (w, o) → id < p.processor.nextWorker ∧
      (Waiting (w.outputDir ++ "/manifest.mpd") o ∨ ∃ r, Done r o))
    (hx : ∀ id w x, p'.exporters.lookup id = some (w, x) → id ∈ p.processor.requestIds ∧
      id ∉ requestedIds p.processor.queue ∧
      (Waiting w.outputPath x.toPackager ∨ ∃ r, Done r x.toPackager)) : Sound p' := by
  have hreq : requestedIds p'.processor.queue = requestedIds p.processor.queue := by
    have hnil : requestedIds es = [] :=
      List.filterMap_eq_nil_iff.mpr fun e he => (hes e he).1
    rw [hq, requestedIds, List.filterMap_append]
    exact (congrArg _ hnil).trans (List.append_nil _)
  constructor
  · rw [hn]
    exact ht
  · rw [hn]
    exact hp
  · rw [hi, hreq]
    exact hx
  · rw [hreq]
    exact hs.requests
  · rw [hi, hreq]
    exact hs.known
  · rw [hq]
    intro e he
    rcases List.mem_append.mp he with he | he
    · exact hk.posted (hs.posted e he)
    · exact (hes e he).2

/-- What comes from outside. -/
def Action.outside? : Action → Option Machine.Action
  | .outside a => some a
  | .handle _ _ | .thread _ _ | .packager _ _ | .exporter _ _ | .downloadWrite _ _
  | .packageWrite _ _ | .exportWrite _ _ => none

/-- The same of the machine, which takes the other steps by itself. -/
def fromOutside (a : Machine.Action) : Option Machine.Action :=
  if a.internal then none else some a

/-- What a concrete step has to come with. -/
def Matched (cfg : Config) (a : Action) (m : Machine) (p' : Plant) : Prop :=
  Sound p' ∧ ((a.outside? = none ∧ p'.processor.calls = [] ∧ Refines p' m) ∨
    ∃ b m', fromOutside b = a.outside? ∧ Machine.step cfg b m = some m' ∧
      m'.calls = p'.processor.calls ∧ Refines p' m')

theorem post_nil (m : Machine) : post [] m = { m with calls := [] } := by
  simp [post]

theorem lookup_insert_or {α : Type} {t : Table Nat α} {id' : Nat} {a a' : α}
    (h : (t.insert id a).lookup id' = some a') : (id' = id ∧ a' = a) ∨ t.lookup id' = some a' := by
  rw [Table.lookup_insert_eq] at h
  split at h
  · next he => exact Or.inl ⟨he, (Option.some.inj h).symm⟩
  · exact Or.inr h

/-- An entry that cannot be the one at `id` is not touched there. -/
theorem lookup_insert_of {α : Type} {t : Table Nat α} {id' : Nat} {a a' b : α}
    (h : t.lookup id' = some a') (hid : t.lookup id = some b) (hne : a' ≠ b) :
    (t.insert id a).lookup id' = some a' := by
  rw [Table.lookup_insert_eq, if_neg ?_]
  · exact h
  · rintro rfl
    exact hne (Option.some.inj (h.symm.trans hid))

theorem matched_thread {w : Downloader} {t t' : Thread} {a : HCNetSDKDownloader.Action}
    (hs : Sound p) (hr : Refines p m) (hl : p.threads.lookup id = some (w, t))
    (ht : HCNetSDKDownloader.step (.ofWorker w) a t = some t') :
    Matched cfg (.thread id a) m { p with
      threads := p.threads.insert id (w, t')
      processor := post ((t'.reports.drop t.reports.length).map fun r =>
        .downloadFinished id w.request.key r.1 r.2) p.processor } := by
  obtain ⟨hlt, hold⟩ := hs.threads id w t hl
  obtain ⟨⟨u, calls, rfl⟩, hdown, hpack, hexp⟩ := hr
  obtain rfl : w.id = id := hdown.named _ w t hl
  have hself : (p.threads.insert w.id (w, t')).lookup w.id = some (w, t') := AList.lookup_insert _
  rcases HCNetSDKDownloader.reports_step ht with ⟨hlive, hend, r, hrep⟩ | ⟨hrep, hend⟩
  · -- the thread ends, and its completion is posted
    have hnil : t.reports = [] := by
      rcases hold with ⟨-, hnil⟩ | ⟨hdead, -⟩
      · exact hnil
      · exact absurd hdead hlive
    have hone : t'.reports = [r] := by rw [hrep, hnil]; rfl
    rw [hone, hnil]
    refine ⟨hs.posts ⟨?_, fun _ _ o _ h hd => ⟨o, h, hd⟩, fun _ _ x _ h hd => ⟨x, h, hd⟩⟩
      rfl rfl rfl ?_ ?_ hs.packagers hs.exporters, Or.inr ?_⟩
    · intro id' w' t'' r' h hr'
      refine ⟨t'', lookup_insert_of h hl ?_, hr'⟩
      intro he
      obtain ⟨rfl, rfl⟩ := Prod.mk.inj he
      rw [hnil] at hr'
      cases hr'
    · intro e he
      obtain rfl := List.mem_singleton.mp he
      exact ⟨rfl, w, t', hself, rfl, hone⟩
    · intro id' w' t'' h
      rcases lookup_insert_or h with ⟨rfl, he⟩ | h
      · obtain ⟨rfl, rfl⟩ := Prod.mk.inj he
        exact ⟨hlt, Or.inr ⟨hend, r, hone⟩⟩
      · exact hs.threads id' w' t'' h
    · have hmem : w ∈ u.downloaders := hdown.mem_of_live hl hlive
      refine ⟨.downloadExit w r.1 r.2, _, rfl, if_pos hmem, rfl, ?_, ?_, hpack, hexp⟩
      · exact ⟨{ u with
          downloaders := u.downloaders.erase w
          lastDownload := Function.update u.lastDownload w.request.key (some (.ended r.1)) },
          [], rfl⟩
      · exact hdown.leave hl fun hne => hne hend
  · -- nothing is posted
    rw [hrep, List.drop_length, List.map_nil, post_nil]
    refine ⟨hs.posts ⟨?_, fun _ _ o _ h hd => ⟨o, h, hd⟩, fun _ _ x _ h hd => ⟨x, h, hd⟩⟩
      (List.append_nil _).symm rfl rfl (List.forall_mem_nil _) ?_ hs.packagers hs.exporters,
      Or.inl ⟨rfl, rfl, ⟨u, calls, ?_⟩, ?_, hpack, hexp⟩⟩
    · intro id' w' t'' r' h hr'
      by_cases he : id' = w.id
      · rw [he, hl] at h
        obtain ⟨rfl, rfl⟩ := Prod.mk.inj (Option.some.inj h)
        rw [he]
        exact ⟨t', hself, hrep.trans hr'⟩
      · exact ⟨t'', by rw [AList.lookup_insert_ne he]; exact h, hr'⟩
    · intro id' w' t'' h
      rcases lookup_insert_or h with ⟨rfl, he⟩ | h
      · obtain ⟨rfl, rfl⟩ := Prod.mk.inj he
        rw [hrep]
        refine ⟨hlt, hold.imp (fun ⟨hne, hnil⟩ => ⟨?_, hnil⟩) fun ⟨he, hr'⟩ => ⟨hend.mpr he, hr'⟩⟩
        exact fun he => hne (hend.mp he)
      · exact hs.threads id' w' t'' h
    · rfl
    · exact hdown.stay hl (not_congr hend)

theorem matched_packager {w : Packager} {o : FfmpegDashPackager} (e : ProcessEvent)
    (hs : Sound p) (hr : Refines p m) (hl : p.packagers.lookup id = some (w, o)) :
    Matched cfg (.packager id e) m { p with
      packagers := p.packagers.insert id (w, o.on e)
      processor := post (((FfmpegDashPackager.wrapper.reports (o.on e)).drop
        (FfmpegDashPackager.wrapper.reports o).length).map fun r =>
          .packageFinished id w.key r.success r.errorMessage) p.processor } := by
  obtain ⟨hlt, hold⟩ := hs.packagers id w o hl
  obtain ⟨⟨u, calls, rfl⟩, hdown, hpack, hexp⟩ := hr
  obtain rfl : w.id = id := hpack.named _ w o hl
  have hself : (p.packagers.insert w.id (w, o.on e)).lookup w.id = some (w, o.on e) :=
    AList.lookup_insert _
  rcases FfmpegDashPackager.reports_on hold e with
    ⟨r, hnil, hlive, hdone, -⟩ | ⟨hrep, hlive, hnew, hkeep⟩
  · rw [hdone.reports, hnil]
    refine ⟨hs.posts ⟨fun _ _ t _ h hd => ⟨t, h, hd⟩, ?_, fun _ _ x _ h hd => ⟨x, h, hd⟩⟩
      rfl rfl rfl ?_ hs.threads ?_ hs.exporters, Or.inr ?_⟩
    · intro id' w' o' r' h hd
      refine ⟨o', lookup_insert_of h hl ?_, hd⟩
      intro he
      obtain ⟨rfl, rfl⟩ := Prod.mk.inj he
      rw [hd.process] at hlive
      cases hlive
    · intro e he
      obtain rfl := List.mem_singleton.mp he
      exact ⟨rfl, w, _, r, hself, rfl, hdone, rfl, rfl⟩
    · intro id' w' o' h
      rcases lookup_insert_or h with ⟨rfl, he⟩ | h
      · obtain ⟨rfl, rfl⟩ := Prod.mk.inj he
        exact ⟨hlt, Or.inr ⟨r, hdone⟩⟩
      · exact hs.packagers id' w' o' h
    · have hmem : w ∈ u.packagers := hpack.mem_of_live hl hlive
      refine ⟨.packageExit w r.success r.errorMessage, _, rfl, if_pos hmem, rfl, ?_, hdown, ?_,
        hexp⟩
      · exact ⟨{ u with
          packagers := u.packagers.erase w
          lastPackage := Function.update u.lastPackage w.key (some (.ended r.success)) },
          [], rfl⟩
      · refine hpack.leave hl ?_
        rw [hdone.process]
        exact Bool.false_ne_true
  · rw [hrep, List.drop_length, List.map_nil, post_nil]
    refine ⟨hs.posts ⟨fun _ _ t _ h hd => ⟨t, h, hd⟩, ?_, fun _ _ x _ h hd => ⟨x, h, hd⟩⟩
      (List.append_nil _).symm rfl rfl (List.forall_mem_nil _) hs.threads ?_ hs.exporters,
      Or.inl ⟨rfl, rfl, ⟨u, calls, rfl⟩, hdown, hpack.stay hl hlive, hexp⟩⟩
    · intro id' w' o' r' h hd
      by_cases he : id' = w.id
      · rw [he, hl] at h
        obtain ⟨rfl, rfl⟩ := Prod.mk.inj (Option.some.inj h)
        rw [he]
        exact ⟨_, hself, hkeep r' hd⟩
      · exact ⟨o', by rw [AList.lookup_insert_ne he]; exact h, hd⟩
    · intro id' w' o' h
      rcases lookup_insert_or h with ⟨rfl, he⟩ | h
      · obtain ⟨rfl, rfl⟩ := Prod.mk.inj he
        exact ⟨hlt, hnew⟩
      · exact hs.packagers id' w' o' h

theorem matched_exporter {w : ClipExport} {x : FfmpegClipExporter} (e : ProcessEvent)
    (hs : Sound p) (hr : Refines p m) (hl : p.exporters.lookup id = some (w, x)) :
    Matched cfg (.exporter id e) m { p with
      exporters := p.exporters.insert id (w, x.on e)
      processor := post (((FfmpegClipExporter.wrapper.reports (x.on e)).drop
        (FfmpegClipExporter.wrapper.reports x).length).map fun r =>
          .exportDone id r.success r.path r.errorMessage) p.processor } := by
  obtain ⟨hid, hnot, hold⟩ := hs.exporters id w x hl
  obtain ⟨⟨u, calls, rfl⟩, hdown, hpack, hexp⟩ := hr
  obtain rfl : w.requestId = id := hexp.named _ w x hl
  have hself : (p.exporters.insert w.requestId (w, x.on e)).lookup w.requestId =
      some (w, x.on e) := AList.lookup_insert _
  -- the exporter does what a packager does
  have hon : (x.on e).toPackager = x.toPackager.on e :=
    congrArg FfmpegClipExporter.toPackager (on_toExporter e x.toPackager)
  have hreports : ∀ y : FfmpegClipExporter, FfmpegClipExporter.wrapper.reports y =
      FfmpegDashPackager.wrapper.reports y.toPackager := fun _ => rfl
  rw [hreports, hreports, hon]
  rcases FfmpegDashPackager.reports_on hold e with
    ⟨r, hnil, hlive, hdone, hpath, herror⟩ | ⟨hrep, hlive, hnew, hkeep⟩
  · rw [hdone.reports, hnil]
    rw [← hon] at hdone
    refine ⟨hs.posts ⟨fun _ _ t _ h hd => ⟨t, h, hd⟩, fun _ _ o _ h hd => ⟨o, h, hd⟩, ?_⟩
      rfl rfl rfl ?_ hs.threads hs.packagers ?_, Or.inr ?_⟩
    · intro id' w' x' r' h hd
      refine ⟨x', lookup_insert_of h hl ?_, hd⟩
      intro he
      obtain ⟨rfl, rfl⟩ := Prod.mk.inj he
      rw [hd.process] at hlive
      cases hlive
    · intro e he
      obtain rfl := List.mem_singleton.mp he
      exact ⟨rfl, w, _, r, hself, hdone, rfl, rfl, rfl⟩
    · intro id' w' x' h
      rcases lookup_insert_or h with ⟨rfl, he⟩ | h
      · obtain ⟨rfl, rfl⟩ := Prod.mk.inj he
        exact ⟨hid, hnot, Or.inr ⟨r, hdone⟩⟩
      · exact hs.exporters id' w' x' h
    · have hmem : w ∈ u.exporters := hexp.mem_of_live hl hlive
      refine ⟨.exportExit w r.success r.errorMessage, _, rfl, if_pos hmem, rfl, ?_, hdown, hpack,
        ?_⟩
      · have herr : (if r.success then "" else r.errorMessage) = r.errorMessage := by
          cases hsuccess : r.success with
          | true => rw [if_pos rfl, herror hsuccess]
          | false => rw [if_neg Bool.false_ne_true]
        rw [← hpath, herr]
        exact ⟨{ u with exporters := u.exporters.erase w }, [], rfl⟩
      · refine hexp.leave hl ?_
        have hnone : (x.on e).process = none := hdone.process
        rw [hnone]
        exact Bool.false_ne_true
  · rw [hrep, List.drop_length, List.map_nil, post_nil]
    rw [← hon] at hnew hkeep hlive
    refine ⟨hs.posts ⟨fun _ _ t _ h hd => ⟨t, h, hd⟩, fun _ _ o _ h hd => ⟨o, h, hd⟩, ?_⟩
      (List.append_nil _).symm rfl rfl (List.forall_mem_nil _) hs.threads hs.packagers ?_,
      Or.inl ⟨rfl, rfl, ⟨u, calls, rfl⟩, hdown, hpack, hexp.stay hl hlive⟩⟩
    · intro id' w' x' r' h hd
      by_cases he : id' = w.requestId
      · rw [he, hl] at h
        obtain ⟨rfl, rfl⟩ := Prod.mk.inj (Option.some.inj h)
        rw [he]
        exact ⟨_, hself, hkeep r' hd⟩
      · exact ⟨x', by rw [AList.lookup_insert_ne he]; exact h, hd⟩
    · intro id' w' x' h
      rcases lookup_insert_or h with ⟨rfl, he⟩ | h
      · obtain ⟨rfl, rfl⟩ := Prod.mk.inj he
        exact ⟨hid, hnot, hnew⟩
      · exact hs.exporters id' w' x' h

/-! ## Slots and the outside -/

theorem Sound.popped {e : Event} {q : List Event} {m₁ : Machine} (hs : Sound p)
    (hq : p.processor.queue = e :: q) (hm : m₁.queue = q)
    (hn : p.processor.nextWorker ≤ m₁.nextWorker)
    (hi : m₁.requestIds = p.processor.requestIds) : Sound { p with processor := m₁ } := by
  have hreq : requestedIds p.processor.queue = e.requestId?.toList ++ requestedIds m₁.queue := by
    rw [hq, requestedIds_cons, hm]
  constructor
  · intro id w t h
    exact (hs.threads id w t h).imp_left fun hlt => Nat.lt_of_lt_of_le hlt hn
  · intro id w o h
    exact (hs.packagers id w o h).imp_left fun hlt => Nat.lt_of_lt_of_le hlt hn
  · intro id w x h
    obtain ⟨hid, hnot, hold⟩ := hs.exporters id w x h
    rw [hreq] at hnot
    exact ⟨hi ▸ hid, fun hmem => hnot (List.mem_append_right _ hmem), hold⟩
  · have hnd := hs.requests
    rw [hreq] at hnd
    exact hnd.of_append_right
  · intro id hid
    rw [hi]
    exact hs.known id (by rw [hreq]; exact List.mem_append_right _ hid)
  · intro e' he
    refine (keeps_of_tables rfl rfl rfl).posted (hs.posted e' ?_)
    rw [hq]
    exact List.mem_cons_of_mem _ (hm ▸ he)

/-- A number that no object has is not looked up for any other. -/
theorem lookup_insert_of_notMem {α : Type} {t : Table Nat α} {id' : Nat} {a a' : α}
    (h : t.lookup id' = some a') (hid : id ∉ t) : (t.insert id a).lookup id' = some a' := by
  rw [Table.lookup_insert_eq, if_neg ?_]
  · exact h
  · rintro rfl
    exact hid (Table.mem_iff_lookup.mpr ⟨a', h⟩)

theorem Sound.thread_started {w : Downloader} (hs : Sound p) (hnew : w.id ∉ p.threads)
    (hlt : w.id < p.processor.nextWorker) :
    Sound { p with threads := p.threads.insert w.id (w, {}) } where
  threads id w' t h := by
    rcases lookup_insert_or h with ⟨rfl, he⟩ | h
    · obtain ⟨-, rfl⟩ := Prod.mk.inj he
      exact ⟨hlt, Or.inl ⟨by simp, rfl⟩⟩
    · exact hs.threads id w' t h
  packagers := hs.packagers
  exporters := hs.exporters
  requests := hs.requests
  known := hs.known
  posted e he := by
    have hk : Keeps p { p with threads := p.threads.insert w.id (w, {}) } :=
      ⟨fun _ _ t _ h hr => ⟨t, lookup_insert_of_notMem h hnew, hr⟩,
        fun _ _ o _ h hd => ⟨o, h, hd⟩, fun _ _ x _ h hd => ⟨x, h, hd⟩⟩
    exact hk.posted (hs.posted e he)

theorem Sound.packager_started {w : Packager} (codecs : String × String) (hs : Sound p)
    (hnew : w.id ∉ p.packagers) (hlt : w.id < p.processor.nextWorker) :
    Sound { p with
      packagers := p.packagers.insert w.id (w, .ofWorker w codecs.1 codecs.2) } where
  threads := hs.threads
  packagers id w' o h := by
    rcases lookup_insert_or h with ⟨rfl, he⟩ | h
    · obtain ⟨rfl, rfl⟩ := Prod.mk.inj he
      exact ⟨hlt, Or.inl (FfmpegDashPackager.waiting_package _ _ _ _ rfl rfl)⟩
    · exact hs.packagers id w' o h
  exporters := hs.exporters
  requests := hs.requests
  known := hs.known
  posted e he := by
    have hk : Keeps p { p with
        packagers := p.packagers.insert w.id (w, .ofWorker w codecs.1 codecs.2) } :=
      ⟨fun _ _ t _ h hr => ⟨t, h, hr⟩,
        fun _ _ o _ h hd => ⟨o, lookup_insert_of_notMem h hnew, hd⟩,
        fun _ _ x _ h hd => ⟨x, h, hd⟩⟩
    exact hk.posted (hs.posted e he)

theorem Sound.exporter_started {w : ClipExport} (hs : Sound p) (hnew : w.requestId ∉ p.exporters)
    (hid : w.requestId ∈ p.processor.requestIds)
    (hnot : w.requestId ∉ requestedIds p.processor.queue) :
    Sound { p with exporters := p.exporters.insert w.requestId (w, .ofWorker w) } where
  threads := hs.threads
  packagers := hs.packagers
  exporters id w' x h := by
    rcases lookup_insert_or h with ⟨rfl, he⟩ | h
    · obtain ⟨rfl, rfl⟩ := Prod.mk.inj he
      exact ⟨hid, hnot, Or.inl (FfmpegClipExporter.waiting_start _ _ _ _)⟩
    · exact hs.exporters id w' x h
  requests := hs.requests
  known := hs.known
  posted e he := by
    have hk : Keeps p { p with
        exporters := p.exporters.insert w.requestId (w, .ofWorker w) } :=
      ⟨fun _ _ t _ h hr => ⟨t, h, hr⟩, fun _ _ o _ h hd => ⟨o, h, hd⟩,
        fun _ _ x _ h hd => ⟨x, lookup_insert_of_notMem h hnew, hd⟩⟩
    exact hk.posted (hs.posted e he)

/-! ### What a slot starts -/

theorem Sound.notMem_threads {n : Nat} (hs : Sound p) (h : p.processor.nextWorker ≤ n) :
    n ∉ p.threads := by
  intro hmem
  obtain ⟨⟨w, t⟩, hl⟩ := Table.mem_iff_lookup.mp hmem
  have hlt := (hs.threads n w t hl).1
  omega

theorem Sound.notMem_packagers {n : Nat} (hs : Sound p) (h : p.processor.nextWorker ≤ n) :
    n ∉ p.packagers := by
  intro hmem
  obtain ⟨⟨w, o⟩, hl⟩ := Table.mem_iff_lookup.mp hmem
  have hlt := (hs.packagers n w o hl).1
  omega

/-- The id of a request that is next in the queue is new to the exporters, and asked for once. -/
theorem Sound.request_new {requestId : Nat} {keyHex : String} {startSec endSec : Int}
    {q : List Event} (hs : Sound p)
    (hq : p.processor.queue = .exportRequested requestId keyHex startSec endSec :: q) :
    requestId ∉ p.exporters ∧ requestId ∈ p.processor.requestIds ∧
      requestId ∉ requestedIds q := by
  have hcons : requestedIds p.processor.queue = requestId :: requestedIds q := by
    rw [hq, requestedIds_cons]
    rfl
  refine ⟨fun hin => ?_, hs.known requestId ?_, ?_⟩
  · obtain ⟨⟨v, x⟩, hl⟩ := Table.mem_iff_lookup.mp hin
    apply (hs.exporters _ v x hl).2.1
    rw [hcons]
    exact List.mem_cons_self
  · rw [hcons]
    exact List.mem_cons_self
  · have hnodup := hs.requests
    rw [hcons] at hnodup
    exact (List.nodup_cons.mp hnodup).1

variable {probe : String → String × String} {calls : List Call}

theorem obey_nothing
    (h : ∀ c ∈ calls, c.download? = none ∧ c.package? = none ∧ c.export? = none) :
    obey probe calls p = p := by
  unfold obey
  rw [List.filterMap_eq_nil_iff.mpr fun c hc => (h c hc).1,
    List.filterMap_eq_nil_iff.mpr fun c hc => (h c hc).2.1,
    List.filterMap_eq_nil_iff.mpr fun c hc => (h c hc).2.2]
  rfl

theorem obey_download {w : Downloader} (h : calls.filterMap (·.download?) = [w] ∧
    calls.filterMap (·.package?) = [] ∧ calls.filterMap (·.export?) = []) :
    obey probe calls p = { p with threads := p.threads.insert w.id (w, {}) } := by
  unfold obey
  rw [h.1, h.2.1, h.2.2]
  rfl

theorem obey_package {w : Packager} (h : calls.filterMap (·.download?) = [] ∧
    calls.filterMap (·.package?) = [w] ∧ calls.filterMap (·.export?) = []) :
    obey probe calls p = { p with
      packagers := p.packagers.insert w.id
        (w, .ofWorker w (probe w.mp4Path).1 (probe w.mp4Path).2) } := by
  unfold obey
  rw [h.1, h.2.1, h.2.2]
  rfl

theorem obey_exportClip {w : ClipExport} (h : calls.filterMap (·.download?) = [] ∧
    calls.filterMap (·.package?) = [] ∧ calls.filterMap (·.export?) = [w]) :
    obey probe calls p =
      { p with exporters := p.exporters.insert w.requestId (w, .ofWorker w) } := by
  unfold obey
  rw [h.1, h.2.1, h.2.2]
  rfl

/-- A slot of the abstract machine, told by what it does. -/
theorem step_handle_withUnread {env : Env} {e : Event} {q : List Event} {n m₁ : Machine}
    {u : Machine.Unread} (hq : n.queue = e :: q)
    (hclock : n.steadyNow ≤ env.login.sweepNow ∧ env.login.sweepNow ≤ env.login.now)
    (hd : Machine.Dispatched cfg env ((n.popped env q).withUnread u) m₁ e) :
    Machine.step cfg (.handle env) { n.withUnread u with calls } = some m₁ := by
  have hact : Machine.step cfg (.handle env) { n.withUnread u with calls } =
      some (Machine.dispatch cfg env e ((n.popped env q).withUnread u)) := by
    simp only [Machine.step, Machine.act, Machine.withUnread, hq, if_pos hclock]
    rfl
  rw [hact, (Machine.dispatched cfg env e _).unique hd]

theorem matched_handle {env : Env} {m₁ : Machine} (hs : Sound p) (hr : Refines p m)
    (h : Machine.step cfg (.handle env) p.processor = some m₁) :
    Matched cfg (.handle env probe) m (obey probe m₁.calls { p with processor := m₁ }) := by
  obtain ⟨hn, hnumD, hnumP⟩ := Machine.numbered h
  obtain ⟨⟨u, calls, rfl⟩, hdown, hpack, hexp⟩ := hr
  cases Machine.stepped h with
  | @handle env e q m₁ hq hclock hd =>
    have hs₁ : Sound { p with processor := m₁ } := hs.popped hq hd.queue_eq hn hd.requestIds_eq
    obtain ⟨u', hd', hstarts⟩ := hd.withUnread rfl u
    have hstep : Machine.step cfg (.handle env) { p.processor.withUnread u with calls } =
        some (m₁.withUnread u') := step_handle_withUnread hq hclock hd'
    cases hstarts with
    | nothing hud hup hux hcalls =>
      rw [obey_nothing hcalls]
      refine ⟨hs₁, Or.inr ⟨.handle env, _, rfl, hstep, rfl, refines_withUnread ?_ ?_ ?_⟩⟩
      · rw [hud]; exact hdown
      · rw [hup]; exact hpack
      · rw [hux]; exact hexp
    | download w hud hup hux hcalls =>
      obtain ⟨hid, hlt⟩ := hnumD w (Call.mem_of_download? hcalls.1)
      have hnew : w.id ∉ p.threads := hs.notMem_threads hid.ge
      rw [obey_download hcalls]
      refine ⟨hs₁.thread_started hnew hlt,
        Or.inr ⟨.handle env, _, rfl, hstep, rfl, refines_withUnread ?_ ?_ ?_⟩⟩
      · rw [hud]; exact hdown.enter hnew (by simp)
      · rw [hup]; exact hpack
      · rw [hux]; exact hexp
    | package w hud hup hux hcalls =>
      obtain ⟨hid, hlt⟩ := hnumP w (Call.mem_of_package? hcalls.2.1)
      have hnew : w.id ∉ p.packagers := hs.notMem_packagers hid.ge
      rw [obey_package hcalls]
      refine ⟨hs₁.packager_started (probe w.mp4Path) hnew hlt,
        Or.inr ⟨.handle env, _, rfl, hstep, rfl, refines_withUnread ?_ ?_ ?_⟩⟩
      · rw [hud]; exact hdown
      · rw [hup]; exact hpack.enter hnew rfl
      · rw [hux]; exact hexp
    | exportClip w hud hup hux hcalls =>
      have hcalled := Machine.called hd rfl (Call.mem_of_export? hcalls.2.2)
      generalize hwe : w = w' at hcalled
      cases hcalled with
      | @exportClip requestId keyHex startSec endSec hdash =>
        have hwid : w.requestId = requestId := by rw [hwe]; rfl
        obtain ⟨hnew, hid, hnot⟩ := hs.request_new hq
        rw [← hwid] at hnew hid hnot
        rw [obey_exportClip hcalls]
        refine ⟨hs₁.exporter_started hnew (hd.requestIds_eq.symm ▸ hid) (hd.queue_eq.symm ▸ hnot),
          Or.inr ⟨.handle env, _, rfl, hstep, rfl, refines_withUnread ?_ ?_ ?_⟩⟩
        · rw [hud]; exact hdown
        · rw [hup]; exact hpack
        · rw [hux]; exact hexp.enter hnew rfl

theorem matched_outside {a : Machine.Action} {m₁ : Machine} (hs : Sound p) (hr : Refines p m)
    (ha : a.internal = false) (hne : a ≠ .restart)
    (h : Machine.step cfg a p.processor = some m₁)
    (hfresh : ∀ id hex startSec endSec, a = .requestExport id hex startSec endSec →
      id ∉ p.processor.requestIds) :
    Sound { p with processor := m₁ } ∧ ∃ m', Machine.step cfg a m = some m' ∧
      m'.calls = m₁.calls ∧ Refines { p with processor := m₁ } m' := by
  obtain ⟨⟨u, calls, rfl⟩, hdown, hpack, hexp⟩ := hr
  have hk : Keeps p { p with processor := m₁ } := keeps_of_tables rfl rfl rfl
  cases Machine.stepped h with
  | @post r hhex =>
    refine ⟨hs.posts hk rfl rfl rfl ?_ hs.threads hs.packagers hs.exporters,
      _, if_pos hhex, rfl, refines_withUnread hdown hpack hexp⟩
    rw [List.forall_mem_singleton]
    exact ⟨rfl, trivial⟩
  | @access keyHex =>
    refine ⟨hs.posts hk rfl rfl rfl ?_ hs.threads hs.packagers hs.exporters,
      _, rfl, rfl, refines_withUnread hdown hpack hexp⟩
    rw [List.forall_mem_singleton]
    exact ⟨rfl, trivial⟩
  | @requestExport requestId keyHex startSec endSec =>
    have hnew : requestId ∉ p.processor.requestIds := hfresh _ _ _ _ rfl
    have hreq : requestedIds (p.processor.queue ++
        [.exportRequested requestId keyHex startSec endSec]) =
          requestedIds p.processor.queue ++ [requestId] := requestedIds_enqueue _ _
    refine ⟨⟨hs.threads, hs.packagers, ?_, ?_, ?_, ?_⟩,
      _, rfl, rfl, refines_withUnread hdown hpack hexp⟩
    · intro id w x hl
      obtain ⟨hid, hnot, hold⟩ := hs.exporters id w x hl
      refine ⟨List.mem_cons_of_mem _ hid, ?_, hold⟩
      rw [hreq, List.mem_append, List.mem_singleton]
      rintro (hmem | rfl)
      · exact hnot hmem
      · exact hnew hid
    · rw [hreq]
      refine List.nodup_append.mpr ⟨hs.requests, List.nodup_singleton _, ?_⟩
      intro i hi j hj he
      rw [he, List.mem_singleton.mp hj] at hi
      exact hnew (hs.known _ hi)
    · intro id hid
      rw [hreq, List.mem_append, List.mem_singleton] at hid
      rcases hid with hid | rfl
      · exact List.mem_cons_of_mem _ (hs.known id hid)
      · exact List.mem_cons_self
    · intro e he
      rcases List.mem_append.mp he with he | he
      · exact hk.posted (hs.posted e he)
      · rw [List.mem_singleton.mp he]
        trivial
  | @dropExport path =>
    exact ⟨hs.posts hk (List.append_nil _).symm rfl rfl (List.forall_mem_nil _) hs.threads
      hs.packagers hs.exporters,
      _, rfl, rfl, refines_withUnread hdown hpack hexp⟩
  | handle | downloadWrite | downloadExit | packageWrite | packageExit | exportWrite
  | exportExit => cases ha
  | restart => exact absurd rfl hne

/-- A restart takes the objects with it. -/
theorem matched_restart {m₁ : Machine} (hr : Refines p m)
    (h : Machine.step cfg .restart p.processor = some m₁) :
    Matched cfg (.outside .restart) m { processor := m₁ } := by
  obtain ⟨⟨u, calls, rfl⟩, -, -, -⟩ := hr
  obtain rfl := Option.some.inj h
  refine ⟨⟨nofun, nofun, nofun, List.nodup_nil, nofun, nofun⟩, Or.inr ⟨.restart, _, rfl, rfl,
    rfl, ⟨⟨[], [], [], _, _⟩, [], rfl⟩, .empty, .empty, .empty⟩⟩

theorem matched_write {disk : Disk} {a : Action} {b : Machine.Action} {u : Machine.Unread}
    {calls : List Call} (hs : Sound p) (hr : Refines p { p.processor.withUnread u with calls })
    (hb : fromOutside b = a.outside?)
    (h : Machine.step cfg b { p.processor.withUnread u with calls } =
      some ((write disk p.processor).withUnread u)) :
    Matched cfg a { p.processor.withUnread u with calls }
      { p with processor := write disk p.processor } := by
  refine ⟨hs.posts (keeps_of_tables rfl rfl rfl) (List.append_nil _).symm rfl rfl
    (List.forall_mem_nil _) hs.threads hs.packagers hs.exporters,
    Or.inr ⟨b, _, hb, h, rfl, refines_withUnread hr.downloaders hr.packagers hr.exporters⟩⟩

theorem matched {a : Action} (hs : Sound p) (hr : Refines p m) (h : step cfg a p = some p')
    (hfresh : FreshRequest ⟨p, a, p'⟩) : Matched cfg a m p' := by
  cases a with
  | outside a =>
    simp only [step] at h
    cases ha : a.internal with
    | true => rw [ha] at h; cases h
    | false =>
      rw [ha] at h
      obtain ⟨m₁, hm, hp⟩ := Option.map_eq_some_iff.mp h
      by_cases hne : a = .restart
      · subst hne
        obtain rfl := hp
        exact matched_restart hr hm
      · have hp' : { p with processor := m₁ } = p' := by
          cases a with
          | restart => exact absurd rfl hne
          | post | access | requestExport | dropExport | handle | downloadWrite | downloadExit
          | packageWrite | packageExit | exportWrite | exportExit => exact hp
        obtain rfl := hp'
        have hnew : ∀ id hex startSec endSec, a = .requestExport id hex startSec endSec →
            id ∉ p.processor.requestIds := by
          intro id hex startSec endSec he
          rw [he] at hfresh
          exact hfresh
        obtain ⟨hs', m', hm', hcalls, hr'⟩ := matched_outside hs hr ha hne hm hnew
        exact ⟨hs', Or.inr ⟨a, m', by simp [fromOutside, ha, Action.outside?], hm', hcalls, hr'⟩⟩
  | handle env probe =>
    obtain ⟨m₁, hm, rfl⟩ := Option.map_eq_some_iff.mp h
    exact matched_handle hs hr hm
  | thread id a =>
    simp only [step] at h
    cases hl : p.threads.lookup id with
    | none => rw [hl] at h; cases h
    | some wt =>
      obtain ⟨w, t⟩ := wt
      rw [hl] at h
      obtain ⟨t', ht, rfl⟩ := Option.map_eq_some_iff.mp h
      exact matched_thread hs hr hl ht
  | packager id e =>
    simp only [step] at h
    cases hl : p.packagers.lookup id with
    | none => rw [hl] at h; cases h
    | some wo =>
      obtain ⟨w, o⟩ := wo
      rw [hl] at h
      obtain rfl := Option.some.inj h
      exact matched_packager e hs hr hl
  | exporter id e =>
    simp only [step] at h
    cases hl : p.exporters.lookup id with
    | none => rw [hl] at h; cases h
    | some wx =>
      obtain ⟨w, x⟩ := wx
      rw [hl] at h
      obtain rfl := Option.some.inj h
      exact matched_exporter e hs hr hl
  | downloadWrite id f =>
    simp only [step] at h
    cases hl : p.threads.lookup id with
    | none => rw [hl] at h; cases h
    | some wt =>
      obtain ⟨w, t⟩ := wt
      rw [hl] at h
      obtain ⟨hlive, he⟩ := Option.ite_none_right_eq_some.mp h
      obtain rfl := Option.some.inj he
      have hne : t.place ≠ .ended := by
        intro hend
        rw [hend] at hlive
        cases hlive
      have hmem : w ∈ m.downloaders := hr.downloaders.mem_of_live hl hne
      obtain ⟨u, calls, rfl⟩ := hr.processor
      exact matched_write (b := .downloadWrite w f) hs hr rfl (if_pos hmem)
  | packageWrite id d =>
    simp only [step] at h
    cases hl : p.packagers.lookup id with
    | none => rw [hl] at h; cases h
    | some wo =>
      obtain ⟨w, o⟩ := wo
      rw [hl] at h
      obtain ⟨hlive, he⟩ := Option.ite_none_right_eq_some.mp h
      obtain rfl := Option.some.inj he
      have hmem : w ∈ m.packagers := hr.packagers.mem_of_live hl hlive
      obtain ⟨u, calls, rfl⟩ := hr.processor
      exact matched_write (b := .packageWrite w d) hs hr rfl (if_pos hmem)
  | exportWrite id f =>
    simp only [step] at h
    cases hl : p.exporters.lookup id with
    | none => rw [hl] at h; cases h
    | some wx =>
      obtain ⟨w, x⟩ := wx
      rw [hl] at h
      obtain ⟨hlive, he⟩ := Option.ite_none_right_eq_some.mp h
      obtain rfl := Option.some.inj he
      have hmem : w ∈ m.exporters := hr.exporters.mem_of_live hl hlive
      obtain ⟨u, calls, rfl⟩ := hr.processor
      exact matched_write (b := .exportWrite w f) hs hr rfl (if_pos hmem)

theorem refinement (cfg : Config) (disk : Disk) :
    System.Refinement (system cfg) (Machine.system cfg) (fun p m => Sound p ∧ Refines p m)
      FreshRequest Action.outside? fromOutside (start disk) (Machine.start disk) where
  start := ⟨⟨nofun, nofun, nofun, List.nodup_nil, nofun, nofun⟩,
    ⟨⟨⟨[], [], [], _, _⟩, [], rfl⟩, .empty, .empty, .empty⟩⟩
  step t m _ hi h hfresh := by
    obtain ⟨hs, hr⟩ := matched hi.1 hi.2 h hfresh
    exact hr.imp (fun ⟨hnone, _, hr⟩ => ⟨hnone, hs, hr⟩)
      fun ⟨b, m', hobs, hb, _, hr⟩ => ⟨b, m', hobs, hb, hs, hr⟩

/-! ## The laws of the joined system -/

/-- The joined system refines the abstract one: what it reaches is, up to the objects, what
the abstract machine reaches with the workers that have not reported yet, and a completion
in the queue is the one report of an object that is through. -/
theorem workers_refine {disk : Disk} {tr : List (Transition Plant Action)}
    (h : (system cfg).Run (start disk) tr p) (hids : ∀ t ∈ tr, FreshRequest t) :
    ∃ m, (Machine.system cfg).Reachable (Machine.start disk) m ∧ Refines p m ∧
      ∀ e ∈ p.processor.queue, Posted p e := by
  obtain ⟨m, hm, hs, hr⟩ := (refinement cfg disk).reach h hids
  exact ⟨m, hm, hr, hs.posted⟩

/-- The thread of a downloading job runs with no completion queued, or has ended and its
one report is queued. -/
def DownloadHeld (p : Plant) (k : PlaybackKey) (id : Nat) : Prop :=
  ∃ w t, p.threads.lookup id = some (w, t) ∧ w.request.key = k ∧
    ((t.place ≠ .ended ∧ ∀ key ok err, .downloadFinished id key ok err ∉ p.processor.queue) ∨
      (t.place = .ended ∧ ∃ ok err, t.reports = [(ok, err)] ∧
        .downloadFinished id k ok err ∈ p.processor.queue))

/-- The same of the process of a packaging job. -/
def PackageHeld (p : Plant) (k : PlaybackKey) (id : Nat) : Prop :=
  ∃ w o, p.packagers.lookup id = some (w, o) ∧ w.key = k ∧
    ((o.process.isSome = true ∧
        ∀ key ok err, .packageFinished id key ok err ∉ p.processor.queue) ∨
      (o.process = none ∧ ∃ r, FfmpegDashPackager.wrapper.reports o = [r] ∧
        .packageFinished id k r.success r.errorMessage ∈ p.processor.queue))

theorem Sound.downloadHeld {W : Downloader} {k : PlaybackKey} (hs : Sound p) (hr : Refines p m)
    (hW : W ∈ m.downloaders) (hk : W.request.key = k) : DownloadHeld p k W.id := by
  obtain ⟨t, hl, hlive⟩ := (hr.downloaders.mem_iff W).mp hW
  refine ⟨W, t, hl, hk, Or.inl ⟨hlive, fun key ok err hmem => ?_⟩⟩
  obtain ⟨w', t', hl', -, hrep⟩ := hs.posted _ hmem
  obtain ⟨rfl, rfl⟩ := Prod.mk.inj (Option.some.inj (hl.symm.trans hl'))
  rcases (hs.threads _ _ _ hl).2 with ⟨-, hnil⟩ | ⟨hend, -⟩
  · rw [hnil] at hrep
    cases hrep
  · exact hlive hend

/-- A thread is held whether it still runs or its report is queued. -/
theorem Sound.downloadHeld_of_token {k : PlaybackKey} (hs : Sound p) (hr : Refines p m)
    (htok : .downloading id ∈ m.tokens k ∨ ∃ ok, .downloaded id ok ∈ m.tokens k) :
    DownloadHeld p k id := by
  rcases htok with htok | ⟨ok, htok⟩
  · obtain ⟨W, hW, hk, rfl⟩ := Machine.of_mem_tokens_downloading htok
    exact hs.downloadHeld hr hW hk
  · obtain ⟨err, he⟩ := Machine.of_mem_tokens_downloaded htok
    rw [hr.queue_eq] at he
    obtain ⟨w, t, hl, hk, hrep⟩ := hs.posted _ he
    refine ⟨w, t, hl, hk, Or.inr ⟨?_, ok, err, hrep, he⟩⟩
    rcases (hs.threads _ _ _ hl).2 with ⟨-, hnil⟩ | ⟨hend, -⟩
    · rw [hnil] at hrep
      cases hrep
    · exact hend

theorem Sound.packageHeld {W : Packager} {k : PlaybackKey} (hs : Sound p) (hr : Refines p m)
    (hW : W ∈ m.packagers) (hk : W.key = k) : PackageHeld p k W.id := by
  obtain ⟨o, hl, hlive⟩ := (hr.packagers.mem_iff W).mp hW
  refine ⟨W, o, hl, hk, Or.inl ⟨hlive, fun key ok err hmem => ?_⟩⟩
  obtain ⟨w', o', r, hl', -, hdone, -⟩ := hs.posted _ hmem
  obtain ⟨rfl, rfl⟩ := Prod.mk.inj (Option.some.inj (hl.symm.trans hl'))
  rw [hdone.process] at hlive
  cases hlive

theorem Sound.packageHeld_of_token {k : PlaybackKey} (hs : Sound p) (hr : Refines p m)
    (htok : .packaging id ∈ m.tokens k ∨ ∃ ok, .packaged id ok ∈ m.tokens k) :
    PackageHeld p k id := by
  rcases htok with htok | ⟨ok, htok⟩
  · obtain ⟨W, hW, hk, rfl⟩ := Machine.of_mem_tokens_packaging htok
    exact hs.packageHeld hr hW hk
  · obtain ⟨err, he⟩ := Machine.of_mem_tokens_packaged htok
    rw [hr.queue_eq] at he
    obtain ⟨w, o, r, hl, hk, hdone, rfl, rfl⟩ := hs.posted _ he
    exact ⟨w, o, hl, hk, Or.inr ⟨hdone.process, r, hdone.reports, he⟩⟩

/-- A thread that has not ended works for the downloading job of its key. -/
theorem Refines.job_of_thread (hr : Refines p m) (ho : Machine.Ownership m) {w : Downloader}
    {t : Thread} (hl : p.threads.lookup id = some (w, t)) (hlive : t.place ≠ .ended) :
    ∃ job, p.processor.activeJobs.lookup w.request.key = some job ∧ job.state = .downloading ∧
      job.downloader = some id := by
  have hW := hr.downloaders.mem_of_live hl hlive
  have hid : w.id = id := hr.downloaders.named id w t hl
  obtain ⟨-, -, job, hj, -, howns⟩ := ho.of_mem (Machine.mem_tokens_of_downloader hW)
  rw [hr.activeJobs_eq] at hj
  exact ⟨job, hj, howns.1, hid ▸ howns.2.1⟩

theorem Refines.job_of_packager (hr : Refines p m) (ho : Machine.Ownership m) {w : Packager}
    {o : FfmpegDashPackager} (hl : p.packagers.lookup id = some (w, o))
    (hlive : o.process.isSome = true) :
    ∃ job, p.processor.activeJobs.lookup w.key = some job ∧ job.state = .packaging ∧
      job.packager = some id := by
  have hW := hr.packagers.mem_of_live hl hlive
  have hid : w.id = id := hr.packagers.named id w o hl
  obtain ⟨-, -, job, hj, -, howns⟩ := ho.of_mem (Machine.mem_tokens_of_packager hW)
  rw [hr.activeJobs_eq] at hj
  exact ⟨job, hj, howns.1, hid ▸ howns.2.2⟩

/-- The jobs and their objects have each other. -/
structure JobsHaveObjects (p : Plant) : Prop where
  held : ∀ k job, p.processor.activeJobs.lookup k = some job →
    (job.state = .downloading ∧ ∃ id, job.downloader = some id ∧ DownloadHeld p k id) ∨
      (job.state = .packaging ∧ ∃ id, job.packager = some id ∧ PackageHeld p k id)
  /-- A completion names the object of its key's job: what the slot drops is through. -/
  downloadFinished : ∀ id k ok err, .downloadFinished id k ok err ∈ p.processor.queue →
    ∃ job, p.processor.activeJobs.lookup k = some job ∧ job.state = .downloading ∧
      job.downloader = some id
  packageFinished : ∀ id k ok err, .packageFinished id k ok err ∈ p.processor.queue →
    ∃ job, p.processor.activeJobs.lookup k = some job ∧ job.state = .packaging ∧
      job.packager = some id
  /-- No slot has dropped a thread that still works. -/
  threads : ∀ id w t, p.threads.lookup id = some (w, t) → t.place ≠ .ended →
    ∃ job, p.processor.activeJobs.lookup w.request.key = some job ∧ job.state = .downloading ∧
      job.downloader = some id
  packagers : ∀ id w o, p.packagers.lookup id = some (w, o) → o.process.isSome = true →
    ∃ job, p.processor.activeJobs.lookup w.key = some job ∧ job.state = .packaging ∧
      job.packager = some id

/-- Every job has its object, and the object has reported exactly when its completion is
queued: an object is never dropped while it works. -/
theorem jobs_have_objects {disk : Disk} {tr : List (Transition Plant Action)}
    (h : (system cfg).Run (start disk) tr p) (hids : ∀ t ∈ tr, FreshRequest t) :
    JobsHaveObjects p := by
  obtain ⟨m, hm, hs, hr⟩ := (refinement cfg disk).reach h hids
  have ho := Machine.ownership hm
  constructor
  · intro k job hj
    rw [← hr.activeJobs_eq] at hj
    rcases ho.phase hj with ⟨hstate, -, id, hid, htok⟩ | ⟨hstate, -, id, hid, htok⟩
    · exact Or.inl ⟨hstate, id, hid, hs.downloadHeld_of_token hr htok⟩
    · exact Or.inr ⟨hstate, id, hid, hs.packageHeld_of_token hr htok⟩
  · intro id k ok err he
    rw [← hr.queue_eq] at he
    rw [← hr.activeJobs_eq]
    exact ho.downloadFinished he
  · intro id k ok err he
    rw [← hr.queue_eq] at he
    rw [← hr.activeJobs_eq]
    exact ho.packageFinished he
  · intro id w t hl hlive
    exact hr.job_of_thread ho hl hlive
  · intro id w o hl hlive
    exact hr.job_of_packager ho hl hlive

end

namespace Sample

def probe : String → String × String := fun _ => ("h264", "aac")

/-- A download that succeeds, up to its packaging run. -/
def recording : List Action :=
  [.outside (.post (Machine.Sample.request "00000000000000aa")),
    .handle Machine.Sample.env probe,
    .thread 0 (.getFileByTime 5 0), .thread 0 (.playStart true 0), .thread 0 .test,
    .thread 0 (.getDownloadPos 100), .thread 0 .stopGetFile, .thread 0 (.finalTest 0),
    .handle Machine.Sample.env probe, .packager 1 (.cancel true)]

/-- Two jobs: the packager of the first one works, the thread of the second is through. -/
def twoJobs : List Action :=
  [.outside (.post (Machine.Sample.request "00000000000000aa")), .handle Machine.Sample.env probe,
    .outside (.post (Machine.Sample.request "00000000000000bb")), .handle Machine.Sample.env probe,
    .thread 0 (.getFileByTime 5 0), .thread 1 (.getFileByTime 6 0), .thread 0 (.playStart true 0),
    .thread 0 .test, .thread 0 (.getDownloadPos 100), .thread 0 .stopGetFile,
    .thread 0 (.finalTest 0), .thread 1 (.playStart false 0), .handle Machine.Sample.env probe]

end Sample

theorem workers_refine_recording :
    ∃ h : ((system Machine.Sample.config).replay (start {}) Sample.recording).isSome = true,
      let p := (((system Machine.Sample.config).replay (start {}) Sample.recording).get h).2
      p.threads.keys = [0] ∧ p.packagers.keys = [1] ∧ ∃ m,
        (Machine.system Machine.Sample.config).Reachable (Machine.start {}) m ∧ Refines p m ∧
          ∀ e ∈ p.processor.queue, Posted p e :=
  ⟨by decide, by decide, by decide, workers_refine (System.run_get _) (by decide)⟩

theorem jobs_have_objects_twoJobs :
    ∃ h : ((system Machine.Sample.config).replay (start {}) Sample.twoJobs).isSome = true,
      let p := (((system Machine.Sample.config).replay (start {}) Sample.twoJobs).get h).2
      p.processor.activeJobs.keys = [⟨"00000000000000aa"⟩, ⟨"00000000000000bb"⟩] ∧
        p.processor.queue.length = 1 ∧ p.packagers.keys = [2] ∧
        JobsHaveObjects p :=
  ⟨by decide, by decide, by decide, by decide, jobs_have_objects (System.run_get _) (by decide)⟩

end Plant

end VisionPlayback
