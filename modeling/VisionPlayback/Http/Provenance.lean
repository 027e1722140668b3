import VisionPlayback.Http.Authority
import VisionPlayback.Lib.Attribution
import VisionPlayback.Processor.Footprint
import VisionPlayback.Processor.Starts

/-!
# Where everything on the disk comes from

A place on the disk is as the daemon found it, or the last step that changed it was one of
a few kinds, on behalf of a request that was accepted before. What no request names stays,
but for the eviction of directories with the name of a key.
-/

namespace VisionPlayback

open Lib StreamCache

theorem Grounds.Allow.mono {g g' : Grounds} {c : Call} (h : g.Allow c) (he : g'.Extends g) :
    g'.Allow c := by
  cases c with
  | auth a =>
    cases a with
    | login credentials token =>
      obtain ⟨r, hr, hc⟩ := h
      exact ⟨r, he.posted r hr, hc⟩
    | logout token =>
      obtain ⟨id, hid⟩ := h
      exact ⟨id, he.granted id token hid⟩
  | emplaceJob key inserted =>
    obtain ⟨r, hr, hk⟩ := h
    exact ⟨r, he.posted r hr, hk⟩
  | startDownload w =>
    obtain ⟨r, hr, hw, hpath, htoken⟩ := h
    exact ⟨r, he.posted r hr, hw, hpath, he.granted _ _ htoken⟩
  | package w =>
    obtain ⟨r, hr, hw⟩ := h
    exact ⟨r, he.posted r hr, hw⟩
  | exportClip w => exact he.asked w h
  | emit s =>
    cases s with
    | statusChanged keyHex status url =>
      obtain ⟨r, hr, hk⟩ := h
      exact ⟨r, he.posted r hr, hk⟩
    | exportFinished => exact h
  | removed hex => exact h

namespace Machine

variable {cfg : Config} {env : Env} {e : Event} {m m' : Machine} {g g' : Grounds}

/-! ## The workers that run -/

def unread (m : Machine) : Unread where
  downloaders := m.downloaders
  packagers := m.packagers
  exporters := m.exporters
  lastDownload := m.lastDownload
  lastPackage := m.lastPackage

/-- A slot adds to the workers what it calls for. -/
theorem Dispatched.starts (h : Dispatched cfg env m m' e) (hcalls : m.calls = []) :
    Starts m'.calls m.unread m'.unread := by
  obtain ⟨u', hd, hstarts⟩ := h.withUnread hcalls m.unread
  have hsame : m'.withUnread u' = m' := hd.unique h
  have hunread : u' = m'.unread := congrArg unread hsame
  rwa [← hunread]

/-- The workers that run were called for on somebody's behalf. -/
structure Staffed (g : Grounds) (m : Machine) : Prop where
  downloaders : ∀ w ∈ m.downloaders, g.Allow (.startDownload w)
  packagers : ∀ w ∈ m.packagers, g.Allow (.package w)
  exporters : ∀ w ∈ m.exporters, g.asked w

theorem Staffed.start (d : Disk) : Staffed g (start d) where
  downloaders w h := by cases h
  packagers w h := by cases h
  exporters w h := by cases h

theorem Staffed.mono (hi : Staffed g m) (h : g'.Extends g) : Staffed g' m where
  downloaders w hw := (hi.downloaders w hw).mono h
  packagers w hw := (hi.packagers w hw).mono h
  exporters w hw := h.asked w (hi.exporters w hw)

theorem Staffed.frame (hi : Staffed g m) (hd : ∀ w ∈ m'.downloaders, w ∈ m.downloaders)
    (hp : ∀ w ∈ m'.packagers, w ∈ m.packagers) (hx : ∀ w ∈ m'.exporters, w ∈ m.exporters) :
    Staffed g m' where
  downloaders w hw := hi.downloaders w (hd w hw)
  packagers w hw := hi.packagers w (hp w hw)
  exporters w hw := hi.exporters w (hx w hw)

theorem Staffed.dispatched (hi : Staffed g m) (h : Dispatched cfg env m m' e)
    (hcalls : m.calls = []) (hallow : ∀ c ∈ m'.calls, g.Allow c) : Staffed g m' := by
  have hsame : ∀ {α : Type} {l l' : List α}, l' = l → ∀ w ∈ l', w ∈ l := fun he w hw => he ▸ hw
  cases h.starts hcalls with
  | nothing hd hp hx => exact hi.frame (hsame hd) (hsame hp) (hsame hx)
  | download w hd hp hx hc =>
    refine ⟨fun v hv => ?_, fun v hv => hi.packagers v (hsame hp v hv),
      fun v hv => hi.exporters v (hsame hx v hv)⟩
    rcases List.mem_append.mp (hsame hd v hv) with hv | hv
    · exact hi.downloaders v hv
    · rw [List.mem_singleton.mp hv]
      exact hallow _ (Call.mem_of_download? hc.1)
  | package w hd hp hx hc =>
    refine ⟨fun v hv => hi.downloaders v (hsame hd v hv), fun v hv => ?_,
      fun v hv => hi.exporters v (hsame hx v hv)⟩
    rcases List.mem_append.mp (hsame hp v hv) with hv | hv
    · exact hi.packagers v hv
    · rw [List.mem_singleton.mp hv]
      exact hallow _ (Call.mem_of_package? hc.2.1)
  | exportClip w hd hp hx hc =>
    refine ⟨fun v hv => hi.downloaders v (hsame hd v hv),
      fun v hv => hi.packagers v (hsame hp v hv), fun v hv => ?_⟩
    rcases List.mem_append.mp (hsame hx v hv) with hv | hv
    · exact hi.exporters v hv
    · rw [List.mem_singleton.mp hv]
      exact hallow _ (Call.mem_of_export? hc.2.2)

theorem Staffed.step {a : Action} (hi : Staffed g m) (h : Machine.step cfg a m = some m')
    (hallow : ∀ c ∈ m'.calls, g.Allow c) : Staffed g m' := by
  have hkeep : ∀ {α : Type} {l : List α}, ∀ w ∈ l, w ∈ l := fun w hw => hw
  cases stepped h with
  | @handle env e q m' hq hclock hs =>
    have hpopped : Staffed g (m.popped env q) := hi.frame hkeep hkeep hkeep
    exact hpopped.dispatched hs rfl hallow
  | post | access | requestExport | dropExport | downloadWrite | packageWrite | exportWrite =>
    exact hi.frame hkeep hkeep hkeep
  | downloadExit => exact hi.frame (fun _ => List.mem_of_mem_erase) hkeep hkeep
  | packageExit => exact hi.frame hkeep (fun _ => List.mem_of_mem_erase) hkeep
  | exportExit => exact hi.frame hkeep hkeep fun _ => List.mem_of_mem_erase
  | restart => exact ⟨List.forall_mem_nil _, List.forall_mem_nil _, List.forall_mem_nil _⟩

end Machine

namespace Daemon

variable {cfg : DaemonConfig} {d d' : Daemon} {tr : List (Transition Daemon Action)}
  {t : Transition Daemon Action}

theorem staffed_step (hg : Machine.Grounded (grounds cfg tr) t.pre.machine)
    (hi : Machine.Staffed (grounds cfg tr) t.pre.machine)
    (hs : step cfg t.action t.pre = some t.post) :
    Machine.Staffed (grounds cfg (t :: tr)) t.post.machine := by
  have hallow := (justified_step hg hs).2
  have hi' := hi.mono (extends_cons cfg t tr)
  obtain ⟨pre, a, post⟩ := t
  have hs : step cfg a pre = some post := hs
  have hquiet : a.works = false → Machine.Staffed (grounds cfg (⟨pre, a, post⟩ :: tr)) post.machine := by
    intro ha
    rcases machine_quiet hs ha with he | ⟨b, hb, -, hm⟩
    · have he : post.machine = pre.machine := he
      show Machine.Staffed _ post.machine
      rw [he]
      exact hi'
    · refine hi'.step hm fun c hc => ?_
      obtain ⟨env, e, q, rfl, -⟩ := Machine.called_of_step hm hc
      cases hb
  cases a with
  | work b => exact hi'.step (machine_work hs).2 hallow
  | playbackPost | dashGet | downloadGet | deliver => exact hquiet rfl

theorem staffed {disk : Disk} (h : (system cfg).Run (start disk) tr d) :
    Machine.Staffed (grounds cfg tr) d.machine := by
  induction h with
  | nil => exact .start disk
  | @next tr s s' a hr hs ih => exact staffed_step (t := ⟨s, a, s'⟩) (grounded hr) ih hs

/-! ## The places -/

/-- Why a step leaves a place as it does. -/
inductive Cause (cfg : DaemonConfig) (g : Grounds) (t : Transition Daemon Action) :
    Location → Option Content → Prop
  /-- The download of a recording that was posted writes it. -/
  | recorded {r : PlaybackRequest} {w : Downloader} {f : File} (hr : g.posted r)
      (hw : w.request = { r with token := w.request.token })
      (ha : t.action = .work (.downloadWrite w f)) :
      Cause cfg g t (.raw (mp4Path r.key)) (some (.file f))
  /-- It is deleted when its package is announced. -/
  | deleted {r : PlaybackRequest} (hr : g.posted r)
      (hready : Machine.Announces cfg.processor r.key (made t)) :
      Cause cfg g t (.raw (mp4Path r.key)) none
  /-- A packaging run of a posted key writes its files. -/
  | packaged {r : PlaybackRequest} {w : Packager} {p : PackageDir} {name : String}
      (hr : g.posted r) (hw : w.key = r.key) (ha : t.action = .work (.packageWrite w p)) :
      Cause cfg g t (.file (dashDir r.key) name) ((p.files.lookup name).map .file)
  /-- The directory is made when the run starts, or by the run. -/
  | entered {r : PlaybackRequest} {w : Packager} (hr : g.posted r) (hw : w.key = r.key)
      (ha : .package w ∈ made t ∨ ∃ p, t.action = .work (.packageWrite w p)) :
      Cause cfg g t (.dir (dashDir r.key)) (some .directory)
  /-- A pass, on the way to an announcement, goes for a directory with the name of a key. -/
  | evicted {r : PlaybackRequest} {dir name : String} (hr : g.posted r)
      (hready : Machine.Announces cfg.processor r.key (made t)) (hhex : matchesHex16 dir = true) :
      Cause cfg g t (.file dir name) none
  | removed {dir : String} (hhex : matchesHex16 dir = true) (hremoved : .removed dir ∈ made t) :
      Cause cfg g t (.dir dir) none
  /-- The exporter of a clip that was asked for writes it. -/
  | clipped {w : ClipExport} {f : File} (hw : g.asked w)
      (ha : t.action = .work (.exportWrite w f)) :
      Cause cfg g t (.clip w.outputPath) (some (.clip ⟨f, w⟩))
  /-- It is deleted when its download is answered. -/
  | served {id : Nat} {path error : String} {q : List Signal} (ha : t.action = .deliver)
      (hq : t.pre.toHttp = .exportFinished id path true error :: q) :
      Cause cfg g t (.clip path) none

/-- A step of the processor and its workers. -/
theorem cause_of_touches {g : Grounds} {b : Machine.Action} {m m' : Machine} {loc : Location}
    {c : Option Content} (h : Machine.Touches cfg.processor m m' b loc c)
    (hstaff : Machine.Staffed g m) (hb : b.internal = true) (ha : t.action = .work b)
    (hmade : made t = m'.calls) (hallow : ∀ c ∈ made t, g.Allow c) : Cause cfg g t loc c := by
  have hposted : ∀ {key : PlaybackKey}, Machine.Announces cfg.processor key m'.calls →
      ∃ r, g.posted r ∧ r.key = key := by
    intro key hready
    obtain ⟨r, hr, hk⟩ := hallow _ (hmade.symm ▸ hready)
    exact ⟨r, hr, by cases hkey : r.key; cases key; simp_all⟩
  cases h with
  | recorded hw =>
    obtain ⟨r, hr, hreq, hpath, -⟩ := hstaff.downloaders _ hw
    rw [hpath]
    exact .recorded hr hreq ha
  | packaged hw =>
    obtain ⟨r, hr, hk, -, hdir⟩ := hstaff.packagers _ hw
    rw [hdir]
    exact .packaged hr hk ha
  | entered hw =>
    obtain ⟨r, hr, hk, -, hdir⟩ := hstaff.packagers _ hw
    rw [hdir]
    exact .entered hr hk (Or.inr ⟨_, ha⟩)
  | clipped hw => exact .clipped (hstaff.exporters _ hw) ha
  | dropped => cases hb
  | @made env w hw =>
    obtain ⟨r, hr, hk, -, hdir⟩ := hallow (.package w) (hmade.symm ▸ hw)
    rw [hdir]
    exact .entered hr hk (Or.inl (hmade.symm ▸ hw))
  | deleted hready =>
    obtain ⟨r, hr, rfl⟩ := hposted hready
    exact .deleted hr (hmade.symm ▸ hready)
  | @removed env dir hremoved =>
    exact .removed (hallow (.removed dir) (hmade.symm ▸ hremoved)) (hmade.symm ▸ hremoved)
  | evicted hhex hready =>
    obtain ⟨r, hr, rfl⟩ := hposted hready
    exact .evicted hr (hmade.symm ▸ hready) hhex

/-- From outside, only temporary clips are touched. -/
theorem touches_external {b : Machine.Action} {m m' : Machine} {loc : Location}
    {c : Option Content} (h : Machine.Touches cfg.processor m m' b loc c)
    (hb : b.internal = false) : ∃ path, b = .dropExport path ∧ loc = .clip path ∧ c = none := by
  cases h with
  | dropped => exact ⟨_, rfl, rfl, rfl⟩
  | recorded | packaged | entered | clipped | made | deleted | removed | evicted => cases hb

/-- What the listener deletes by itself. -/
theorem cause_of_answer {g : Grounds} {loc : Location} (hs : step cfg t.action t.pre = some t.post)
    (hworks : t.action.works = false) :
    t.post.machine.disk.shows loc = t.pre.machine.disk.shows loc ∨
      Cause cfg g t loc (t.post.machine.disk.shows loc) := by
  obtain ⟨pre, a, post⟩ := t
  have hs : step cfg a pre = some post := hs
  have hkeep : ∀ {b : Machine.Action} {m : Machine}, Machine.step cfg.processor b pre.machine =
      some m → b.internal = false → b ≠ .restart → (∀ path, b ≠ .dropExport path) →
      m.disk.shows loc = pre.machine.disk.shows loc := by
    intro b m hm hb hr hpath
    rcases Machine.touches hm hr loc with he | ht
    · exact he
    · obtain ⟨path, he, -⟩ := touches_external ht hb
      exact absurd he (hpath path)
  cases stepped hs with
  | postRejected | downloadRejected | heard | unmatched => exact Or.inl rfl
  | posted hpost hm => exact Or.inl (hkeep hm rfl (fun he => nomatch he) fun _ he => nomatch he)
  | dashGet hm => exact Or.inl (hkeep hm rfl (fun he => nomatch he) fun _ he => nomatch he)
  | accepted hcheck hm =>
    exact Or.inl (hkeep hm rfl (fun he => nomatch he) fun _ he => nomatch he)
  | @answered id path error ok q p machine hq hp hm =>
    obtain rfl := hm
    cases ok with
    | false => exact Or.inl rfl
    | true =>
      have hdrop : Machine.step cfg.processor (.dropExport path) pre.machine =
          some (dropExport cfg (some path) pre.machine) := rfl
      rcases Machine.touches hdrop (fun he => nomatch he) loc with he | ht
      · exact Or.inl he
      · obtain ⟨path', hb, rfl, hnone⟩ := touches_external ht rfl
        obtain rfl : path = path' := Machine.Action.dropExport.inj hb
        refine Or.inr ?_
        show Cause cfg g _ (.clip path) ((dropExport cfg (some path) pre.machine).disk.shows _)
        rw [hnone]
        exact .served rfl hq
  | worked => cases hworks

theorem cause_step {disk : Disk} {newer older : List (Transition Daemon Action)}
    (h : (system cfg).Run (start disk) (newer ++ t :: older) d) (loc : Location) :
    t.post.machine.disk.shows loc = t.pre.machine.disk.shows loc ∨
      Cause cfg (grounds cfg (t :: older)) t loc (t.post.machine.disk.shows loc) := by
  obtain ⟨hrun, hs⟩ := h.split
  have hs : step cfg t.action t.pre = some t.post := hs
  have hallow := (justified_step (grounded hrun) hs).2
  cases hworks : t.action.works with
  | false => exact cause_of_answer hs hworks
  | true =>
    obtain ⟨pre, a, post⟩ := t
    cases a with
    | playbackPost | dashGet | downloadGet | deliver => cases hworks
    | work b =>
      obtain ⟨hb, hm⟩ := machine_work hs
      have hrestart : b ≠ .restart := by
        rintro rfl
        cases hb
      refine (Machine.touches hm hrestart loc).imp_right fun ht => ?_
      exact cause_of_touches ht ((staffed hrun).mono (extends_cons cfg _ older)) hb rfl rfl hallow

/-- What a daemon that was asked for some recordings may touch. -/
def Ours (g : Grounds) : Location → Prop
  | .raw name => ∃ r, g.posted r ∧ name = mp4Path r.key
  | .dir name | .file name _ => matchesHex16 name = true
  | .clip _ => True

theorem isHex16_of_posted {r : PlaybackRequest} (h : (grounds cfg tr).posted r) :
    isHex16 r.key.hex = true := by
  obtain ⟨u, -, apiKey, body, -, hpost⟩ := h
  have hstep := post_enabled hpost (Machine.start {})
  simp only [Machine.step, Machine.act, Option.isSome_ite] at hstep
  exact hstep

theorem Cause.ours {loc : Location} {c : Option Content}
    (h : Cause cfg (grounds cfg tr) t loc c) : Ours (grounds cfg tr) loc := by
  have hdir : ∀ {r : PlaybackRequest}, (grounds cfg tr).posted r →
      matchesHex16 (dashDir r.key) = true := fun hr => by
    rw [matchesHex16, dashDir, isHex16_of_posted hr, Bool.true_or]
  cases h with
  | recorded hr | deleted hr => exact ⟨_, hr, rfl⟩
  | packaged hr | entered hr => exact hdir hr
  | evicted hr hready hhex => exact hhex
  | removed hhex => exact hhex
  | clipped | served => exact trivial

theorem Ours.mono {g g' : Grounds} {loc : Location} (h : Ours g loc) (he : g'.Extends g) :
    Ours g' loc := by
  cases loc with
  | raw name =>
    obtain ⟨r, hr, hname⟩ := h
    exact ⟨r, he.posted r hr, hname⟩
  | dir | file | clip => exact h

/-- **Where the disk comes from.** In every run, what there is at a place is what the daemon
has started with, or the last step that changed it was one on behalf of a request accepted
before; and a place that is not the daemon's own is never changed. -/
theorem disk_attributed {disk : Disk} (h : (system cfg).Run (start disk) tr d) (loc : Location) :
    (d.machine.disk.shows loc = (start disk).machine.disk.shows loc ∨
      ∃ newer t older, System.LastChange (·.machine.disk.shows loc) tr newer t older ∧
        Cause cfg (grounds cfg (t :: older)) t loc (d.machine.disk.shows loc)) ∧
    (¬ Ours (grounds cfg tr) loc → ∀ t ∈ tr,
      t.post.machine.disk.shows loc = disk.shows loc) := by
  constructor
  · refine h.attribute (·.machine.disk.shows loc) fun newer t older he => ?_
    rw [he] at h
    exact cause_step h loc
  · intro hours
    have hsame : (start disk).machine.disk.shows loc = disk.shows loc := by
      cases loc with
      | raw | dir | file => rfl
      | clip => exact absurd trivial hours
    rw [← hsame]
    refine h.unchanged (·.machine.disk.shows loc) fun t ht => ?_
    obtain ⟨newer, older, rfl⟩ := List.append_of_mem ht
    rcases cause_step h loc with he | hcause
    · exact he
    · exact absurd (hcause.ours.mono (extends_append cfg newer (t :: older))) hours

namespace Sample

def recording : File := { content := [1, 2, 3] }

/-- A recording is asked for, and its download begins to write. -/
def record : List Action :=
  [post, .work (.handle Machine.Sample.env), .work (.downloadWrite recorder recording)]

end Sample

theorem disk_attributed_recording :
    ∃ h : ((system Sample.config).replay (start {}) Sample.record).isSome = true,
      (((system Sample.config).replay (start {}) Sample.record).get h).2.machine.disk.shows
        (.raw "00000000000000aa.mp4") = some (.file Sample.recording) ∧
      ∀ loc, ((((system Sample.config).replay (start {}) Sample.record).get h).2.machine.disk.shows
          loc = (start {}).machine.disk.shows loc ∨
        ∃ newer t older, System.LastChange (·.machine.disk.shows loc)
            (((system Sample.config).replay (start {}) Sample.record).get h).1 newer t older ∧
          Cause Sample.config (grounds Sample.config (t :: older)) t loc
            ((((system Sample.config).replay (start {}) Sample.record).get h).2.machine.disk.shows
              loc)) ∧
        (¬ Ours (grounds Sample.config
            (((system Sample.config).replay (start {}) Sample.record).get h).1) loc →
          ∀ t ∈ (((system Sample.config).replay (start {}) Sample.record).get h).1,
            t.post.machine.disk.shows loc = Disk.shows loc {}) := by
  have hsome : ((system Sample.config).replay (start {}) Sample.record).isSome = true := by decide
  exact ⟨hsome, by decide +revert, fun loc => disk_attributed (System.run_get hsome) loc⟩

end Daemon

end VisionPlayback
