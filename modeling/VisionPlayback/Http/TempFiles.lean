import VisionPlayback.Http.Downloads

/-!
# Temporary exports

ffmpeg creates the file of a download, and the listener deletes it once it has
served it. A failed export is answered without a path, so what its ffmpeg has
left stays where it is.
-/

namespace VisionPlayback.Daemon

open Lib Lib.Ledger StreamCache

/-- Nothing accumulates below `.exports`. -/
structure ExportsTidy (d : Daemon) : Prop where
  pending : ∀ path ∈ d.machine.disk.exports, ∃ id ∈ d.listener.pendingExports,
    path = Machine.exportPath id
  /-- With no download in flight there is no file. -/
  idle : d.listener.pendingExports = ∅ → d.machine.disk.exports = ∅

/-- If the listener handles a failed export here, its ffmpeg has left no file. -/
def LeavesNoFile (t : Transition Daemon Action) : Prop :=
  ∀ requestId outputPath error q, t.action = .deliver →
    t.pre.toHttp = .exportFinished requestId outputPath false error :: q →
    Machine.exportPath requestId ∉ t.pre.machine.disk.exports

variable {cfg : DaemonConfig} {d d' : Daemon}

/-- The second half follows from the first. -/
theorem exportsTidy_iff : ExportsTidy d ↔ ∀ path ∈ d.machine.disk.exports,
    ∃ id ∈ d.listener.pendingExports, path = Machine.exportPath id := by
  refine ⟨ExportsTidy.pending, fun h => ⟨h, fun hidle => ?_⟩⟩
  rw [Table.eq_empty_iff, List.eq_nil_iff_forall_not_mem]
  intro path hpath
  obtain ⟨id, hid, -⟩ := h path (AList.mem_keys.mpr hpath)
  rw [hidle] at hid
  exact AList.notMem_empty _ hid

/-- Clips are written where their ids say, and what is told about them says so. -/
structure Routed (d : Daemon) : Prop where
  traced : Machine.Traced (fun w => w.outputPath = Machine.exportPath w.requestId) d.machine
  paths : ∀ id path err, .exportFinished id path true err ∈ d.toHttp →
    path = Machine.exportPath id

theorem Routed.start (disk : Disk) : Routed (start disk) where
  traced := ⟨fun _ _ _ _ h => (by cases h), fun _ h => (by cases h), fun _ _ h => (by cases h),
    fun _ _ _ h => (by cases h)⟩
  paths _ _ _ h := by cases h

theorem Routed.step {a : Action} (hi : Routed d) (h : step cfg a d = some d') : Routed d' := by
  constructor
  · rcases machine_step h with he | ⟨b, hb, hs⟩
    · rw [he]
      exact hi.traced
    · exact hi.traced.step (fun _ hw => hw) hb hs fun _ _ _ _ _ => rfl
  · intro id path err he
    cases stepped h with
    | postRejected | posted | dashGet | downloadRejected | accepted => exact hi.paths id path err he
    | heard hq | unmatched hq | answered hq =>
      apply hi.paths id path err
      rw [hq]
      exact List.mem_cons_of_mem _ he
    | worked hb hs =>
      rcases List.mem_append.mp he with he | he
      · exact hi.paths id path err he
      · exact hi.traced.emits hs he

/-- A running exporter works for a download in flight. -/
theorem Deferred.mem_of_exporter (hi : Deferred d) {w : ClipExport}
    (hw : w ∈ d.machine.exporters) : w.requestId ∈ d.listener.pendingExports := by
  have hticket : w.requestId ∈ d.machine.exporterIds :=
    List.mem_append_left _ (List.mem_map.mpr ⟨w, hw, rfl⟩)
  have hentry : w.requestId ∈ d.machine.exports := hi.exporters.mem_iff.mp hticket
  apply hi.tokens.mem_iff.mp
  exact List.mem_append_left _ (List.mem_append_right _ (AList.mem_keys.mp hentry))

/-- What a step does to the temporary files when no export is answered: an exporter may
write its own. -/
theorem mem_exports_of_step {b : Machine.Action} {m m' : Machine}
    (h : Machine.step cfg.processor b m = some m') {path : String} (hp : path ∈ m'.disk.exports) :
    path ∈ m.disk.exports ∨ ∃ w ∈ m.exporters, path = w.outputPath := by
  cases Machine.stepped h with
  | handle hq hclock hs =>
    rw [hs.exports_eq] at hp
    exact Or.inl hp
  | post | access | requestExport | downloadWrite | downloadExit | packageWrite | packageExit
  | exportExit => exact Or.inl hp
  | dropExport => exact Or.inl ((AList.mem_erase.mp hp).2)
  | @exportWrite w f hw =>
    rcases (AList.mem_insert _).mp hp with rfl | hp
    · exact Or.inr ⟨w, hw, rfl⟩
    · exact Or.inl hp
  | restart => exact absurd hp (AList.notMem_empty _)

/-- A step that answers no export keeps the files with their downloads. -/
theorem ExportsTidy.mono (ht : ExportsTidy d) (hd : Deferred d) (hr : Routed d)
    (hfiles : d'.machine = d.machine ∨ ∃ b, Machine.step cfg.processor b d.machine = some d'.machine)
    (hpend : ∀ id ∈ d.listener.pendingExports, id ∈ d'.listener.pendingExports) :
    ExportsTidy d' := by
  refine exportsTidy_iff.mpr fun path hpath => ?_
  have hold : path ∈ d.machine.disk.exports ∨ ∃ w ∈ d.machine.exporters, path = w.outputPath := by
    rcases hfiles with he | ⟨b, hs⟩
    · rw [he] at hpath
      exact Or.inl hpath
    · exact mem_exports_of_step hs hpath
  rcases hold with hpath | ⟨w, hw, rfl⟩
  · obtain ⟨id, hid, he⟩ := ht.pending path hpath
    exact ⟨id, hpend id hid, he⟩
  · exact ⟨w.requestId, hpend _ (hd.mem_of_exporter hw), hr.traced.exporters w hw⟩

/-- After an answer, the files are those of the other downloads exactly when the file
of the answered one is gone. -/
theorem exportsTidy_answered {requestId : Nat} (ht : ExportsTidy d)
    (hsub : ∀ path ∈ d'.machine.disk.exports, path ∈ d.machine.disk.exports)
    (hp : d'.listener.pendingExports = d.listener.pendingExports.erase requestId) :
    ExportsTidy d' ↔ Machine.exportPath requestId ∉ d'.machine.disk.exports := by
  rw [exportsTidy_iff, hp]
  constructor
  · intro h hmem
    obtain ⟨id, hid, he⟩ := h _ hmem
    exact (AList.mem_erase.mp hid).1 (Machine.exportPath_inj he).symm
  · intro hgone path hpath
    obtain ⟨id, hid, rfl⟩ := ht.pending path (hsub path hpath)
    refine ⟨id, AList.mem_erase.mpr ⟨?_, hid⟩, rfl⟩
    rintro rfl
    exact hgone hpath

/-- What a step from tidy files does to them. -/
theorem exportsTidy_step {a : Action} (h : step cfg a d = some d') (hd : Deferred d)
    (hr : Routed d) (ht : ExportsTidy d) : ExportsTidy d' ↔ LeavesNoFile ⟨d, a, d'⟩ := by
  -- a step that delivers no failure meets the condition
  have still : (a = .deliver → ∀ requestId outputPath error q,
      d.toHttp ≠ .exportFinished requestId outputPath false error :: q) → ExportsTidy d' →
      (ExportsTidy d' ↔ LeavesNoFile ⟨d, a, d'⟩) :=
    fun hne htidy => iff_of_true htidy fun id path err q ha hq => absurd hq (hne ha id path err q)
  cases stepped h with
  | postRejected | downloadRejected => exact still (by simp) ht
  | posted hpost hs => exact still (by simp) (ht.mono hd hr (Or.inr ⟨_, hs⟩) fun _ hid => hid)
  | dashGet hs => exact still (by simp) (ht.mono hd hr (Or.inr ⟨_, hs⟩) fun _ hid => hid)
  | accepted hcheck hs =>
    refine still (by simp) (ht.mono hd hr (Or.inr ⟨_, hs⟩) fun id hid => ?_)
    simp only [Listener.deferExport, Table.emplace]
    split
    · exact hid
    · exact (AList.mem_insert _).mpr (Or.inr hid)
  | worked hb hs => exact still (by simp) (ht.mono hd hr (Or.inr ⟨_, hs⟩) fun _ hid => hid)
  | heard hq => exact still (by simp [hq]) (exportsTidy_iff.mpr ht.pending)
  | unmatched hq hp => exact absurd (hd.mem_of_finished hq) (AList.lookup_eq_none.mp hp)
  | @answered requestId outputPath error ok q p machine hq hp hm =>
    obtain rfl := hm
    cases ok with
    | true =>
      have hpath : outputPath = Machine.exportPath requestId :=
        hr.paths _ _ _ (hq ▸ List.mem_cons_self)
      have hgone : Machine.exportPath requestId ∉ d.machine.disk.exports.erase outputPath :=
        fun hmem => (AList.mem_erase.mp hmem).1 hpath.symm
      exact still (by simp [hq]) ((exportsTidy_answered ht
        (fun path hmem => (AList.mem_erase.mp hmem).2) rfl).mpr hgone)
    | false =>
      refine Iff.trans (exportsTidy_answered ht (fun path hmem => hmem) rfl) ?_
      constructor
      · intro hgone id path err q' _ hq'
        have hq' : d.toHttp = .exportFinished id path false err :: q' := hq'
        rw [hq] at hq'
        cases hq'
        exact hgone
      · exact fun hleft => hleft _ _ _ _ rfl hq

/-- While no id in flight is issued again, temporary files outlive no download exactly
when every failed export has left none. -/
theorem exportsTidy_run_iff {disk : Disk} {tr : List (Transition Daemon Action)}
    (h : (system cfg).Run (start disk) tr d) (hfresh : ∀ t ∈ tr, IssuesFresh t.action t.pre) :
    (∀ t ∈ tr, ExportsTidy t.post) ↔ ∀ t ∈ tr, LeavesNoFile t := by
  have hbooks := h.invariant_of (I := fun d => Deferred d ∧ Routed d) hfresh
    ⟨.start disk, .start disk⟩ fun t ⟨hd, hr⟩ hs hf => ⟨hd.step_of_fresh hs hf, hr.step hs⟩
  refine h.forall_post_iff (exportsTidy_iff.mpr fun _ hp => absurd hp (AList.notMem_empty _)) ?_
  intro t ht htidy
  obtain ⟨hd, hr⟩ := (hbooks.2 t ht).1
  exact exportsTidy_step (h.transition ht).2 hd hr htidy

namespace Sample

/-- ffmpeg writes a part of the clip, then fails. -/
def brokenExport : List Action :=
  [download, .work (.handle Machine.Sample.env), .work (.exportWrite clip Machine.Sample.manifest),
    .work (.exportExit clip false "Conversion failed!"), .work (.handle Machine.Sample.env), .deliver]

end Sample

theorem exportsTidy_run_iff_brokenExport :
    ∃ h : ((system Sample.config).replay (start Sample.packaged) Sample.brokenExport).isSome = true,
      let r := ((system Sample.config).replay (start Sample.packaged) Sample.brokenExport).get h
      (∀ t ∈ r.1, ExportsTidy t.post) ↔ ∀ t ∈ r.1, LeavesNoFile t :=
  ⟨by decide, exportsTidy_run_iff (System.run_get _) (issuesFresh (System.run_get _) (by decide))⟩

theorem not_exportsTidy : ¬ ∀ (cfg : DaemonConfig) (disk : Disk) (d : Daemon),
    (system cfg).Reachable (start disk) d → ExportsTidy d := by
  intro hall
  have hsome : ((system Sample.config).replay (start Sample.packaged)
    Sample.brokenExport).isSome = true := by decide
  have hrun : (((system Sample.config).replay (start Sample.packaged)
      Sample.brokenExport).get hsome).2.listener.pendingExports.keys = [] ∧
      (((system Sample.config).replay (start Sample.packaged)
        Sample.brokenExport).get hsome).2.machine.disk.exports.keys ≠ [] := by decide +revert
  have htidy := hall _ _ _ (System.run_get hsome).reachable
  exact hrun.2 (Table.eq_empty_iff.mp (htidy.idle (Table.eq_empty_iff.mpr hrun.1)))

end VisionPlayback.Daemon
