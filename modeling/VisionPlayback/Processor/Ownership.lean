import VisionPlayback.Processor.Slots

/-!
# Who works for a key

A key's tokens are its running workers and its queued completions. Every
reachable state has one token for a key with a job and none for a key without,
and the job stands in the phase its token says.
-/

namespace VisionPlayback

open Lib StreamCache

/-- One running worker, or its completion once it is queued. -/
inductive Token
  | downloading (worker : Nat)
  | downloaded (worker : Nat) (ok : Bool)
  | packaging (worker : Nat)
  | packaged (worker : Nat) (ok : Bool)
  deriving DecidableEq

namespace Token

def worker : Token → Nat
  | .downloading w | .downloaded w _ | .packaging w | .packaged w _ => w

/-- The job of a key is in the phase of the key's token, and owns its worker. -/
def Owns (t : Token) (job : Job) : Prop :=
  match t with
  | .downloading w | .downloaded w _ =>
    job.state = .downloading ∧ job.downloader = some w ∧ job.packager = none
  | .packaging w | .packaged w _ =>
    job.state = .packaging ∧ job.downloader = none ∧ job.packager = some w

end Token

def Downloader.token? (k : PlaybackKey) (w : Downloader) : Option Token :=
  if w.request.key = k then some (.downloading w.id) else none

def Packager.token? (k : PlaybackKey) (w : Packager) : Option Token :=
  if w.key = k then some (.packaging w.id) else none

def Event.token? (k : PlaybackKey) : Event → Option Token
  | .downloadFinished w key ok _ => if key = k then some (.downloaded w ok) else none
  | .packageFinished w key ok _ => if key = k then some (.packaged w ok) else none
  | _ => none

def tokensOf (ds : List Downloader) (ps : List Packager) (q : List Event) (k : PlaybackKey) :
    List Token :=
  ds.filterMap (·.token? k) ++ ps.filterMap (·.token? k) ++ q.filterMap (·.token? k)

def Machine.tokens (m : Machine) (k : PlaybackKey) : List Token :=
  tokensOf m.downloaders m.packagers m.queue k

/-- What the job table says of a key, against the key's tokens; workers are
numbered below `n`. -/
inductive Owned (n : Nat) (k : PlaybackKey) : Option Job → List Token → Prop
  | idle : Owned n k none []
  | busy {job : Job} {t : Token} (hkey : job.key = k) (howns : t.Owns job)
      (hworker : t.worker < n) : Owned n k (some job) [t]

section Tokens

variable {ds ds' : List Downloader} {ps ps' : List Packager} {q : List Event} {k : PlaybackKey}

theorem tokensOf_congr (hd : ds.Perm ds') (hp : ps.Perm ps') :
    (tokensOf ds ps q k).Perm (tokensOf ds' ps' q k) :=
  ((hd.filterMap _).append (hp.filterMap _)).append_right _

theorem tokensOf_downloader (w : Downloader) :
    tokensOf (w :: ds) ps q k = (w.token? k).toList ++ tokensOf ds ps q k := by
  cases h : w.token? k <;> simp [tokensOf, h]

theorem tokensOf_packager (w : Packager) :
    (tokensOf ds (w :: ps) q k).Perm ((w.token? k).toList ++ tokensOf ds ps q k) := by
  cases h : w.token? k with
  | none => simp [tokensOf, h]
  | some t =>
    simp only [tokensOf, List.filterMap_cons, h, Option.toList_some, List.append_assoc,
      List.cons_append, List.nil_append]
    exact List.perm_middle

theorem tokensOf_event (e : Event) :
    (tokensOf ds ps (e :: q) k).Perm ((e.token? k).toList ++ tokensOf ds ps q k) := by
  cases h : e.token? k with
  | none => simp [tokensOf, h]
  | some t =>
    simp only [tokensOf, List.filterMap_cons, h, Option.toList_some, List.cons_append,
      List.nil_append]
    exact List.perm_middle

theorem tokensOf_enqueue (e : Event) :
    (tokensOf ds ps (q ++ [e]) k).Perm ((e.token? k).toList ++ tokensOf ds ps q k) := by
  have h : tokensOf ds ps (q ++ [e]) k = tokensOf ds ps q k ++ (e.token? k).toList := by
    cases h : e.token? k <;> simp [tokensOf, List.filterMap_append, h]
  rw [h]
  exact List.perm_append_comm

end Tokens

namespace Owned

variable {n n' : Nat} {k : PlaybackKey} {o : Option Job} {ts ts' : List Token}

theorem perm (h : Owned n k o ts) (hp : ts'.Perm ts) : Owned n k o ts' := by
  cases h with
  | idle => rw [List.perm_nil.mp hp]; exact .idle
  | busy hkey howns hworker => rw [List.perm_singleton.mp hp]; exact .busy hkey howns hworker

theorem mono (h : Owned n k o ts) (hn : n ≤ n') : Owned n' k o ts := by
  cases h with
  | idle => exact .idle
  | busy hkey howns hworker => exact .busy hkey howns (by omega)

theorem of_none (h : Owned n k none ts) : ts = [] := by cases h; rfl

/-- A key's token has a job, which it owns, and is the only one. -/
theorem of_cons {t : Token} (h : Owned n k o (t :: ts)) :
    ts = [] ∧ t.worker < n ∧ ∃ job, o = some job ∧ job.key = k ∧ t.Owns job := by
  cases h with
  | busy hkey howns hworker => exact ⟨rfl, hworker, _, rfl, hkey, howns⟩

theorem of_some {job : Job} (h : Owned n k (some job) ts) :
    ∃ t, ts = [t] ∧ t.worker < n ∧ job.key = k ∧ t.Owns job := by
  cases h with
  | busy hkey howns hworker => exact ⟨_, rfl, hworker, hkey, howns⟩

/-- A token may become another one that owns the same jobs. -/
theorem advance {t t' : Token} (h : Owned n k o (t :: ts)) (hw : t'.worker = t.worker)
    (howns : ∀ job, t.Owns job → t'.Owns job) : Owned n k o (t' :: ts) := by
  cases h with
  | busy hkey h hworker => exact .busy hkey (howns _ h) (by omega)

end Owned

namespace Machine

def Ownership (m : Machine) : Prop :=
  ∀ k, Owned m.nextWorker k (m.activeJobs.lookup k) (m.tokens k)

/-- All is well with every other key, and no token of this key is left. -/
def OwnedBut (m : Machine) (key : PlaybackKey) : Prop :=
  (∀ k, k ≠ key → Owned m.nextWorker k (m.activeJobs.lookup k) (m.tokens k)) ∧ m.tokens key = []

section

variable {m m' : Machine} {key : PlaybackKey}

theorem Ownership.of_tokens (hi : Ownership m) (hj : m'.activeJobs = m.activeJobs)
    (hn : m'.nextWorker = m.nextWorker) (ht : ∀ k, (m'.tokens k).Perm (m.tokens k)) :
    Ownership m' := by
  intro k
  rw [hj, hn]
  exact (hi k).perm (ht k)

theorem Ownership.but (hi : Ownership m) (h : key ∉ m.activeJobs) : OwnedBut m key := by
  have hk := hi key
  rw [AList.lookup_eq_none.mpr h] at hk
  exact ⟨fun k _ => hi k, hk.of_none⟩

/-- The job goes once its token is spent. -/
theorem OwnedBut.erase (h : OwnedBut m key) (hj : m'.activeJobs = m.activeJobs.erase key)
    (hn : m'.nextWorker = m.nextWorker) (ht : ∀ k, m'.tokens k = m.tokens k) : Ownership m' := by
  intro k
  rw [hj, hn, ht, Table.lookup_erase_eq]
  by_cases hk : k = key
  · rw [if_pos hk, hk, h.2]
    exact .idle
  · rw [if_neg hk]
    exact h.1 k hk

/-- A job is put in place together with the worker it owns. -/
theorem OwnedBut.insert {job : Job} {t : Token} (h : OwnedBut m key)
    (hj : m'.activeJobs = m.activeJobs.insert key job) (hn : m'.nextWorker = m.nextWorker + 1)
    (ht : ∀ k, (m'.tokens k).Perm ((if key = k then some t else none).toList ++ m.tokens k))
    (hkey : job.key = key) (howns : t.Owns job) (hworker : t.worker = m.nextWorker) :
    Ownership m' := by
  intro k
  rw [hj, hn, Table.lookup_insert_eq]
  by_cases hk : k = key
  · have hp := ht k
    rw [if_pos hk.symm, hk, h.2] at hp
    rw [if_pos hk, hk]
    exact (Owned.busy hkey howns (by omega)).perm hp
  · have hp := ht k
    rw [if_neg (Ne.symm hk)] at hp
    rw [if_neg hk]
    exact ((h.1 k hk).perm hp).mono (Nat.le_succ _)

theorem OwnedBut.launchPackager {env : Env} {job : Job} (h : OwnedBut m key)
    (hkey : job.key = key) (hd : job.downloader = none) :
    Ownership (m.launchPackager env key job) := by
  refine h.insert (t := .packaging m.nextWorker) rfl rfl (fun k => ?_) hkey ⟨rfl, hd, rfl⟩ rfl
  exact (tokensOf_congr (.refl _) List.perm_append_comm).trans (tokensOf_packager _)

theorem OwnedBut.launchDownloader {r : PlaybackRequest} (h : OwnedBut m r.key) :
    Ownership (m.launchDownloader r) := by
  refine h.insert (t := .downloading m.nextWorker) rfl rfl (fun k => ?_) rfl ⟨rfl, rfl, rfl⟩ rfl
  apply (tokensOf_congr List.perm_append_comm (.refl _)).trans
  exact .of_eq (tokensOf_downloader _)

/-- A slot for an event that is no completion starts with every token in place. -/
theorem Ownership.pop {e : Event} {q : List Event} (hi : Ownership m) (env : Env)
    (hq : m.queue = e :: q) (he : ∀ k, e.token? k = none) : Ownership (m.popped env q) := by
  refine hi.of_tokens rfl rfl (fun k => ?_)
  have hp : (m.tokens k).Perm ((e.token? k).toList ++ (m.popped env q).tokens k) := by
    unfold tokens
    rw [hq]
    exact tokensOf_event e
  rw [he k] at hp
  exact hp.symm

/-- A slot for a completion finds the job that owns the worker behind it. -/
theorem Ownership.spend {e : Event} {q : List Event} {t : Token} (hi : Ownership m)
    (env : Env) (hq : m.queue = e :: q)
    (he : ∀ k, e.token? k = if key = k then some t else none) :
    OwnedBut (m.popped env q) key ∧
      ∃ job, m.activeJobs.lookup key = some job ∧ job.key = key ∧ t.Owns job := by
  have hp : ∀ k, (m.tokens k).Perm ((e.token? k).toList ++ (m.popped env q).tokens k) := by
    intro k
    unfold tokens
    rw [hq]
    exact tokensOf_event e
  have hkey := (hi key).perm (hp key).symm
  rw [he key, if_pos rfl] at hkey
  obtain ⟨hnil, -, job, hjob, hk, howns⟩ := hkey.of_cons
  refine ⟨⟨fun k hk => ?_, hnil⟩, job, hjob, hk, howns⟩
  have hoff := (hi k).perm (hp k).symm
  rw [he k, if_neg (Ne.symm hk)] at hoff
  exact hoff

theorem Ownership.requested {cfg : Config} {env : Env} {r : PlaybackRequest} (hi : Ownership m)
    (h : Requested cfg env r m m') : Ownership m' := by
  cases h with
  | ready hdash => exact hi.of_tokens rfl rfl fun _ => .refl _
  | active hdash hjob => exact hi
  | refused hdash hjob hlogin htoken => exact hi.of_tokens rfl rfl fun _ => .refl _
  | @shortcut token cache calls hdash hjob hlogin htoken hmp4 =>
    have hi' : Ownership (((m.afterLogin cache calls).call (.emplaceJob r.key true)).statusChanged
        r.key .pending "") := hi.of_tokens rfl rfl fun _ => .refl _
    exact (hi'.but hjob).launchPackager rfl rfl
  | @download token cache calls hdash hjob hlogin htoken hmp4 =>
    have hi' : Ownership (m.afterLogin cache calls) := hi.of_tokens rfl rfl fun _ => .refl _
    have h : OwnedBut (m.afterLogin cache calls) r.key := hi'.but hjob
    exact OwnedBut.launchDownloader (r := { r with token := token }) h

theorem OwnedBut.downloadHandled {env : Env} {success : Bool} {job : Job} (h : OwnedBut m key)
    (hjob : m.activeJobs.lookup key = some job) (hkey : job.key = key)
    (hs : DownloadHandled env key success m m') : Ownership m' := by
  cases hs with
  | ignored hn => rw [hjob] at hn; cases hn
  | failed hj hok => exact h.erase rfl rfl fun _ => rfl
  | packaging hj hok =>
    rw [hjob] at hj
    obtain rfl := Option.some.inj hj
    exact h.launchPackager hkey rfl

theorem OwnedBut.packageHandled {cfg : Config} {env : Env} {success : Bool} {job : Job}
    (h : OwnedBut m key) (hjob : m.activeJobs.lookup key = some job)
    (hs : PackageHandled cfg env key success m m') : Ownership m' := by
  cases hs with
  | ignored hn => rw [hjob] at hn; cases hn
  | failed hj hok => exact h.erase rfl rfl fun _ => rfl
  | ready hj hok => exact h.erase rfl rfl fun _ => rfl

theorem Ownership.dispatched {cfg : Config} {env : Env} {e : Event} {q : List Event}
    (hi : Ownership m) (hq : m.queue = e :: q) (h : Dispatched cfg env (m.popped env q) m' e) :
    Ownership m' := by
  cases h with
  | playbackRequested hs => exact (hi.pop env hq fun _ => rfl).requested hs
  | keyAccessed hs =>
    obtain rfl := hs
    exact (hi.pop env hq fun _ => rfl).of_tokens rfl rfl fun _ => .refl _
  | exportRequested hs =>
    have hi' : Ownership (m.popped env q) := hi.pop env hq fun _ => rfl
    cases hs with
    | notReady hdash => exact hi'.of_tokens rfl rfl fun _ => .refl _
    | started hdash => exact hi'.of_tokens rfl rfl fun _ => .refl _
  | downloadFinished hs =>
    obtain ⟨h, job, hjob, hkey, -⟩ := hi.spend env hq fun _ => rfl
    exact h.downloadHandled hjob hkey hs
  | packageFinished hs =>
    obtain ⟨h, job, hjob, -, -⟩ := hi.spend env hq fun _ => rfl
    exact h.packageHandled hjob hs
  | exportDone hs =>
    have hi' : Ownership (m.popped env q) := hi.pop env hq fun _ => rfl
    cases hs with
    | ignored hexp => exact hi'
    | finished hexp => exact hi'.of_tokens rfl rfl fun _ => .refl _

/-- A worker's exit turns its token into the token of its completion. -/
theorem Ownership.exit {t u : Token} (hi : Ownership m) {rest : PlaybackKey → List Token}
    (hj : m'.activeJobs = m.activeJobs) (hn : m'.nextWorker = m.nextWorker)
    (ht : ∀ k, (m.tokens k).Perm ((if key = k then some t else none).toList ++ rest k))
    (ht' : ∀ k, (m'.tokens k).Perm ((if key = k then some u else none).toList ++ rest k))
    (hw : u.worker = t.worker) (howns : ∀ job, t.Owns job → u.Owns job) : Ownership m' := by
  intro k
  rw [hj, hn]
  have h := (hi k).perm (ht k).symm
  have hp := ht' k
  by_cases hk : key = k
  · rw [if_pos hk] at h hp
    exact (h.advance hw howns).perm hp
  · rw [if_neg hk] at h hp
    exact h.perm hp

theorem Ownership.step {cfg : Config} {a : Action} (hi : Ownership m)
    (h : Machine.step cfg a m = some m') : Ownership m' := by
  cases stepped h with
  | post hhex => exact hi.of_tokens rfl rfl fun _ => tokensOf_enqueue _
  | access => exact hi.of_tokens rfl rfl fun _ => tokensOf_enqueue _
  | requestExport => exact hi.of_tokens rfl rfl fun _ => tokensOf_enqueue _
  | dropExport => exact hi.of_tokens rfl rfl fun _ => .refl _
  | handle hq hclock hs => exact hi.dispatched hq hs
  | downloadWrite hw => exact hi.of_tokens rfl rfl fun _ => .refl _
  | @downloadExit w ok err hw =>
    refine hi.exit (t := .downloading w.id) (u := .downloaded w.id ok) rfl rfl (fun k => ?_)
      (fun k => tokensOf_enqueue _) rfl fun job h => h
    exact (tokensOf_congr (List.perm_cons_erase hw) (.refl _)).trans (.of_eq (tokensOf_downloader _))
  | packageWrite hw => exact hi.of_tokens rfl rfl fun _ => .refl _
  | @packageExit w ok err hw =>
    refine hi.exit (t := .packaging w.id) (u := .packaged w.id ok) rfl rfl (fun k => ?_)
      (fun k => tokensOf_enqueue _) rfl fun job h => h
    exact (tokensOf_congr (.refl _) (List.perm_cons_erase hw)).trans (tokensOf_packager _)
  | exportWrite hw => exact hi.of_tokens rfl rfl fun _ => .refl _
  | exportExit hw => exact hi.of_tokens rfl rfl fun _ => tokensOf_enqueue _
  | restart => exact fun k => .idle

theorem ownership {cfg : Config} {d : Disk} (h : (system cfg).Reachable (start d) m) :
    Ownership m :=
  h.invariant (fun _ => .idle) fun _ _ _ hi hs => hi.step hs

/-! ## Names and paths -/

/-- Every worker writes where its key says, and every key is sixteen hex digits. -/
structure Named (m : Machine) : Prop where
  downloads : ∀ w ∈ m.downloaders,
    w.outputPath = mp4Path w.request.key ∧ isHex16 w.request.key.hex = true
  packages : ∀ w ∈ m.packagers,
    w.mp4Path = mp4Path w.key ∧ w.outputDir = dashDir w.key ∧ isHex16 w.key.hex = true
  jobs : ∀ k ∈ m.activeJobs, isHex16 k.hex = true
  posts : ∀ r, .playbackRequested r ∈ m.queue → isHex16 r.key.hex = true

theorem named_idle (hd : m.downloaders = []) (hp : m.packagers = []) (hj : m.activeJobs = ∅)
    (hq : m.queue = []) : Named m := by
  constructor
  · simp [hd]
  · simp [hp]
  · simp [hj]
  · simp [hq]

theorem Named.of_subset (hi : Named m) (hd : ∀ w ∈ m'.downloaders, w ∈ m.downloaders)
    (hp : ∀ w ∈ m'.packagers, w ∈ m.packagers) (hj : ∀ k ∈ m'.activeJobs, k ∈ m.activeJobs)
    (hq : ∀ r, .playbackRequested r ∈ m'.queue → .playbackRequested r ∈ m.queue) : Named m' where
  downloads w hw := hi.downloads w (hd w hw)
  packages w hw := hi.packages w (hp w hw)
  jobs k hk := hi.jobs k (hj k hk)
  posts r hr := hi.posts r (hq r hr)

theorem Named.pop {env : Env} {e : Event} {q : List Event} (hi : Named m)
    (hq : m.queue = e :: q) : Named (m.popped env q) := by
  refine hi.of_subset (fun _ h => h) (fun _ h => h) (fun _ h => h) fun r hr => ?_
  rw [hq]
  exact List.mem_cons_of_mem _ hr

theorem Named.launchPackager {env : Env} {job : Job} (hi : Named m)
    (hkey : isHex16 key.hex = true) : Named (m.launchPackager env key job) where
  downloads := hi.downloads
  packages w hw := by
    rcases List.mem_append.mp hw with hw | hw
    · exact hi.packages w hw
    · obtain rfl := List.mem_singleton.mp hw
      exact ⟨rfl, rfl, hkey⟩
  jobs k hk := by
    rcases AList.mem_insert m.activeJobs |>.mp hk with rfl | hk
    · exact hkey
    · exact hi.jobs k hk
  posts := hi.posts

theorem Named.launchDownloader {r : PlaybackRequest} (hi : Named m)
    (hkey : isHex16 r.key.hex = true) : Named (m.launchDownloader r) where
  downloads w hw := by
    rcases List.mem_append.mp hw with hw | hw
    · exact hi.downloads w hw
    · obtain rfl := List.mem_singleton.mp hw
      exact ⟨rfl, hkey⟩
  packages := hi.packages
  jobs k hk := by
    rcases AList.mem_insert m.activeJobs |>.mp hk with rfl | hk
    · exact hkey
    · exact hi.jobs k hk
  posts := hi.posts

theorem Named.erase (hi : Named m) (hd : m'.downloaders = m.downloaders)
    (hp : m'.packagers = m.packagers) (hj : m'.activeJobs = m.activeJobs.erase key)
    (hq : m'.queue = m.queue) : Named m' := by
  refine hi.of_subset (fun _ h => hd ▸ h) (fun _ h => hp ▸ h) (fun k h => ?_) fun _ h => hq ▸ h
  rw [hj] at h
  exact (AList.mem_erase.mp h).2

theorem Named.dispatched {cfg : Config} {env : Env} {e : Event} {q : List Event} (hi : Named m)
    (hq : m.queue = e :: q) (h : Dispatched cfg env (m.popped env q) m' e) : Named m' := by
  have hi' : Named (m.popped env q) := hi.pop hq
  have keep : ∀ n : Machine, n.downloaders = m.downloaders → n.packagers = m.packagers →
      n.activeJobs = m.activeJobs → n.queue = q → Named n := by
    intro n hd hp hj hn
    exact hi'.of_subset (fun _ h => hd ▸ h) (fun _ h => hp ▸ h) (fun _ h => hj ▸ h)
      fun _ h => hn ▸ h
  cases h with
  | @playbackRequested r hs =>
    have hkey : isHex16 r.key.hex = true := hi.posts r (hq ▸ List.mem_cons_self)
    cases hs with
    | ready hdash => exact keep _ rfl rfl rfl rfl
    | active hdash hjob => exact hi'
    | refused hdash hjob hlogin htoken => exact keep _ rfl rfl rfl rfl
    | shortcut hdash hjob hlogin htoken hmp4 =>
      exact Named.launchPackager (keep _ rfl rfl rfl rfl) hkey
    | @download token cache calls hdash hjob hlogin htoken hmp4 =>
      exact Named.launchDownloader (r := { r with token := token })
        (keep ((m.popped env q).afterLogin cache calls) rfl rfl rfl rfl) hkey
  | keyAccessed hs =>
    obtain rfl := hs
    exact keep _ rfl rfl rfl rfl
  | exportRequested hs =>
    cases hs with
    | notReady hdash => exact keep _ rfl rfl rfl rfl
    | started hdash => exact keep _ rfl rfl rfl rfl
  | @downloadFinished w key success err hs =>
    cases hs with
    | ignored hjob => exact hi'
    | failed hjob hok => exact hi'.erase rfl rfl rfl rfl
    | packaging hjob hok => exact hi'.launchPackager (hi.jobs key (Table.mem_iff_lookup.mpr ⟨_, hjob⟩))
  | packageFinished hs =>
    cases hs with
    | ignored hjob => exact hi'
    | failed hjob hok => exact hi'.erase rfl rfl rfl rfl
    | ready hjob hok => exact hi'.erase rfl rfl rfl rfl
  | exportDone hs =>
    cases hs with
    | ignored hexp => exact hi'
    | finished hexp => exact keep _ rfl rfl rfl rfl

theorem Named.enqueue {e : Event} (hi : Named m) (hd : ∀ w ∈ m'.downloaders, w ∈ m.downloaders)
    (hp : ∀ w ∈ m'.packagers, w ∈ m.packagers) (hj : m'.activeJobs = m.activeJobs)
    (hq : m'.queue = m.queue ++ [e]) (he : ∀ r, e = .playbackRequested r → isHex16 r.key.hex = true) :
    Named m' where
  downloads w hw := hi.downloads w (hd w hw)
  packages w hw := hi.packages w (hp w hw)
  jobs k hk := hi.jobs k (hj ▸ hk)
  posts r hr := by
    rw [hq] at hr
    rcases List.mem_append.mp hr with hr | hr
    · exact hi.posts r hr
    · exact he r (List.mem_singleton.mp hr).symm

theorem Named.step {cfg : Config} {a : Action} (hi : Named m)
    (h : Machine.step cfg a m = some m') : Named m' := by
  have same : ∀ n : Machine, n.downloaders = m.downloaders → n.packagers = m.packagers →
      n.activeJobs = m.activeJobs → n.queue = m.queue → Named n := by
    intro n hd hp hj hn
    exact hi.of_subset (fun _ h => hd ▸ h) (fun _ h => hp ▸ h) (fun _ h => hj ▸ h)
      fun _ h => hn ▸ h
  cases stepped h with
  | post hhex =>
    exact hi.enqueue (fun _ h => h) (fun _ h => h) rfl rfl fun _ he => by cases he; exact hhex
  | access => exact hi.enqueue (fun _ h => h) (fun _ h => h) rfl rfl fun _ he => nomatch he
  | requestExport => exact hi.enqueue (fun _ h => h) (fun _ h => h) rfl rfl fun _ he => nomatch he
  | dropExport => exact same _ rfl rfl rfl rfl
  | handle hq hclock hs => exact hi.dispatched hq hs
  | downloadWrite hw => exact same _ rfl rfl rfl rfl
  | downloadExit hw =>
    exact hi.enqueue (fun _ h => List.mem_of_mem_erase h) (fun _ h => h) rfl rfl
      fun _ he => nomatch he
  | packageWrite hw => exact same _ rfl rfl rfl rfl
  | packageExit hw =>
    exact hi.enqueue (fun _ h => h) (fun _ h => List.mem_of_mem_erase h) rfl rfl
      fun _ he => nomatch he
  | exportWrite hw => exact same _ rfl rfl rfl rfl
  | exportExit hw => exact hi.enqueue (fun _ h => h) (fun _ h => h) rfl rfl fun _ he => nomatch he
  | restart => exact named_idle rfl rfl rfl rfl

theorem named {cfg : Config} {d : Disk} (h : (system cfg).Reachable (start d) m) : Named m :=
  h.invariant (named_idle rfl rfl rfl rfl) fun _ _ _ hi hs => hi.step hs

/-! ## The law of jobs and workers -/

theorem nodup_of_tokens {α : Type*} {l : List α} {f : α → PlaybackKey} {t : PlaybackKey → α → Token}
    (h : ∀ k, (l.filterMap fun w => if f w = k then some (t k w) else none).length ≤ 1) :
    (l.map f).Nodup := by
  induction l with
  | nil => exact List.nodup_nil
  | cons w l ih =>
    have htail : ∀ k, (l.filterMap fun w => if f w = k then some (t k w) else none).length ≤ 1 := by
      intro k
      have hk := h k
      rw [List.filterMap_cons] at hk
      split at hk
      · exact hk
      · rw [List.length_cons] at hk
        omega
    have hw := h (f w)
    rw [List.filterMap_cons, if_pos rfl, List.length_cons] at hw
    rw [List.map_cons, List.nodup_cons]
    refine ⟨fun hmem => ?_, ih htail⟩
    obtain ⟨v, hv, he⟩ := List.mem_map.mp hmem
    have hin : t (f w) v ∈ l.filterMap fun v => if f v = f w then some (t (f w) v) else none :=
      List.mem_filterMap.mpr ⟨v, hv, if_pos he⟩
    have hpos := List.length_pos_of_mem hin
    omega

theorem Ownership.length_tokens (hi : Ownership m) (k : PlaybackKey) : (m.tokens k).length ≤ 1 := by
  have h := hi k
  cases hj : m.activeJobs.lookup k with
  | none =>
    rw [hj] at h
    rw [h.of_none]
    exact Nat.zero_le _
  | some job =>
    rw [hj] at h
    obtain ⟨t, ht, -⟩ := h.of_some
    rw [ht]
    exact Nat.le_refl _

theorem Ownership.mem_iff (hi : Ownership m) (k : PlaybackKey) :
    k ∈ m.activeJobs ↔ m.tokens k ≠ [] := by
  have h := hi k
  rw [Table.mem_iff_lookup]
  cases hj : m.activeJobs.lookup k with
  | none =>
    rw [hj] at h
    simp [h.of_none]
  | some job =>
    rw [hj] at h
    obtain ⟨t, ht, -⟩ := h.of_some
    simp [ht]

theorem Ownership.of_mem (hi : Ownership m) {k : PlaybackKey} {t : Token} (ht : t ∈ m.tokens k) :
    m.tokens k = [t] ∧ t.worker < m.nextWorker ∧
      ∃ job, m.activeJobs.lookup k = some job ∧ job.key = k ∧ t.Owns job := by
  have h := hi k
  cases hj : m.activeJobs.lookup k with
  | none =>
    rw [hj] at h
    rw [h.of_none] at ht
    cases ht
  | some job =>
    rw [hj] at h
    obtain ⟨u, hu, hlt, hkey, howns⟩ := h.of_some
    rw [hu] at ht
    obtain rfl := List.mem_singleton.mp ht
    exact ⟨hu, hlt, job, rfl, hkey, howns⟩

theorem mem_tokens_of_downloader {w : Downloader} (hw : w ∈ m.downloaders) :
    .downloading w.id ∈ m.tokens w.request.key := by
  have h : Token.downloading w.id ∈ m.downloaders.filterMap (·.token? w.request.key) :=
    List.mem_filterMap.mpr ⟨w, hw, if_pos rfl⟩
  exact List.mem_append_left _ (List.mem_append_left _ h)

theorem mem_tokens_of_packager {w : Packager} (hw : w ∈ m.packagers) :
    .packaging w.id ∈ m.tokens w.key := by
  have h : Token.packaging w.id ∈ m.packagers.filterMap (·.token? w.key) :=
    List.mem_filterMap.mpr ⟨w, hw, if_pos rfl⟩
  exact List.mem_append_left _ (List.mem_append_right _ h)

theorem mem_tokens_of_event {e : Event} {k : PlaybackKey} {t : Token} (he : e ∈ m.queue)
    (ht : e.token? k = some t) : t ∈ m.tokens k :=
  List.mem_append_right _ (List.mem_filterMap.mpr ⟨e, he, ht⟩)

/-- No two workers write the same path. -/
theorem nodup_paths (hi : Ownership m) (hn : Named m) :
    (m.downloaders.map (·.outputPath) ++ m.packagers.map (·.outputDir)).Nodup := by
  have hlen : ∀ k, (m.downloaders.filterMap (·.token? k)).length +
      (m.packagers.filterMap (·.token? k)).length ≤ 1 := by
    intro k
    have h := hi.length_tokens k
    simp only [tokens, tokensOf, List.length_append] at h
    omega
  have hd : (m.downloaders.map (·.request.key)).Nodup :=
    nodup_of_tokens (t := fun _ w => .downloading w.id) fun k =>
      le_trans (Nat.le_add_right _ _) (hlen k)
  have hp : (m.packagers.map (·.key)).Nodup :=
    nodup_of_tokens (t := fun _ w => .packaging w.id) fun k =>
      le_trans (Nat.le_add_left _ _) (hlen k)
  have hdp : m.downloaders.map (·.outputPath) = (m.downloaders.map (·.request.key)).map mp4Path := by
    rw [List.map_map]
    exact List.map_congr_left fun w hw => (hn.downloads w hw).1
  have hpp : m.packagers.map (·.outputDir) = (m.packagers.map (·.key)).map dashDir := by
    rw [List.map_map]
    exact List.map_congr_left fun w hw => (hn.packages w hw).2.1
  rw [List.nodup_append, hdp, hpp]
  refine ⟨hd.map fun _ _ h => mp4Path_inj h, hp.map fun _ _ h => dashDir_inj h, ?_⟩
  intro a ha b hb
  obtain ⟨k, hk, rfl⟩ := List.mem_map.mp ha
  obtain ⟨w, hw, rfl⟩ := List.mem_map.mp hk
  obtain ⟨k', hk', rfl⟩ := List.mem_map.mp hb
  obtain ⟨w', hw', rfl⟩ := List.mem_map.mp hk'
  exact mp4Path_ne_dashDir (hn.downloads w hw).2 (hn.packages w' hw').2.2

theorem evict_nextWorker (cfg : Config) (env : Env) (m : Machine) :
    (m.evict cfg env).nextWorker = m.nextWorker := rfl

/-- A new worker takes the next number. -/
theorem numbered {cfg : Config} {a : Action} (h : Machine.step cfg a m = some m') :
    m.nextWorker ≤ m'.nextWorker ∧
      (∀ w, .startDownload w ∈ m'.calls → w.id = m.nextWorker ∧ w.id < m'.nextWorker) ∧
      ∀ w, .package w ∈ m'.calls → w.id = m.nextWorker ∧ w.id < m'.nextWorker := by
  cases stepped h with
  | handle hq hclock hs =>
    cases hs with
    | playbackRequested hs =>
      cases hs <;>
        simp [call, statusChanged, afterLogin, popped, launchPackager, launchDownloader]
    | keyAccessed hs => simp [hs, onKeyAccessed, popped]
    | exportRequested hs => cases hs <;> simp [call, launchExporter, popped]
    | downloadFinished hs => cases hs <;> simp [call, statusChanged, launchPackager, popped]
    | packageFinished hs =>
      cases hs <;>
        simp [call, statusChanged, evict_calls, evict_nextWorker, beforeEvict, popped]
    | exportDone hs => cases hs <;> simp [call, popped]
  | post | access | requestExport | dropExport | downloadWrite | downloadExit | packageWrite
  | packageExit | exportWrite | exportExit | restart =>
    exact ⟨Nat.le_refl _, fun _ h => (by cases h), fun _ h => (by cases h)⟩

/-- A job, its worker and the worker's completion, in every state that is seen
between two slots. -/
structure JobsOwned (m : Machine) : Prop where
  one : ∀ k, (m.tokens k).length ≤ 1
  job_iff : ∀ k, k ∈ m.activeJobs ↔ m.tokens k ≠ []
  phase : ∀ k job, m.activeJobs.lookup k = some job →
    (job.state = .downloading ∧ job.packager = none ∧ ∃ w, job.downloader = some w ∧
      (.downloading w ∈ m.tokens k ∨ ∃ ok, .downloaded w ok ∈ m.tokens k)) ∨
    (job.state = .packaging ∧ job.downloader = none ∧ ∃ w, job.packager = some w ∧
      (.packaging w ∈ m.tokens k ∨ ∃ ok, .packaged w ok ∈ m.tokens k))
  not_pending : ∀ k job, m.activeJobs.lookup k = some job → job.state ≠ .pending
  emplaced : ∀ key inserted, .emplaceJob key inserted ∈ m.calls → inserted = true
  paths : (m.downloaders.map (·.outputPath) ++ m.packagers.map (·.outputDir)).Nodup
  downloadFinished : ∀ w key ok err, .downloadFinished w key ok err ∈ m.queue →
    ∃ job, m.activeJobs.lookup key = some job ∧ job.state = .downloading ∧
      job.downloader = some w
  packageFinished : ∀ w key ok err, .packageFinished w key ok err ∈ m.queue →
    ∃ job, m.activeJobs.lookup key = some job ∧ job.state = .packaging ∧ job.packager = some w
  workers : ∀ k, ∀ t ∈ m.tokens k, t.worker < m.nextWorker

theorem Ownership.phase (hi : Ownership m) {k : PlaybackKey} {job : Job}
    (hj : m.activeJobs.lookup k = some job) :
    (job.state = .downloading ∧ job.packager = none ∧ ∃ w, job.downloader = some w ∧
      (.downloading w ∈ m.tokens k ∨ ∃ ok, .downloaded w ok ∈ m.tokens k)) ∨
    (job.state = .packaging ∧ job.downloader = none ∧ ∃ w, job.packager = some w ∧
      (.packaging w ∈ m.tokens k ∨ ∃ ok, .packaged w ok ∈ m.tokens k)) := by
  have h := hi k
  rw [hj] at h
  obtain ⟨t, ht, -, -, howns⟩ := h.of_some
  have hmem : t ∈ m.tokens k := by rw [ht]; exact List.mem_singleton_self t
  cases t with
  | downloading w => exact Or.inl ⟨howns.1, howns.2.2, w, howns.2.1, Or.inl hmem⟩
  | downloaded w ok => exact Or.inl ⟨howns.1, howns.2.2, w, howns.2.1, Or.inr ⟨ok, hmem⟩⟩
  | packaging w => exact Or.inr ⟨howns.1, howns.2.1, w, howns.2.2, Or.inl hmem⟩
  | packaged w ok => exact Or.inr ⟨howns.1, howns.2.1, w, howns.2.2, Or.inr ⟨ok, hmem⟩⟩

/-- A completion in the queue comes from the worker that the job of its key has. -/
theorem Ownership.downloadFinished (hi : Ownership m) {w : Nat} {key : PlaybackKey} {ok : Bool}
    {err : String} (he : .downloadFinished w key ok err ∈ m.queue) :
    ∃ job, m.activeJobs.lookup key = some job ∧ job.state = .downloading ∧
      job.downloader = some w := by
  have ht : Token.downloaded w ok ∈ m.tokens key := mem_tokens_of_event he (if_pos rfl)
  obtain ⟨-, -, job, hj, -, howns⟩ := hi.of_mem ht
  exact ⟨job, hj, howns.1, howns.2.1⟩

theorem Ownership.packageFinished (hi : Ownership m) {w : Nat} {key : PlaybackKey} {ok : Bool}
    {err : String} (he : .packageFinished w key ok err ∈ m.queue) :
    ∃ job, m.activeJobs.lookup key = some job ∧ job.state = .packaging ∧
      job.packager = some w := by
  have ht : Token.packaged w ok ∈ m.tokens key := mem_tokens_of_event he (if_pos rfl)
  obtain ⟨-, -, job, hj, -, howns⟩ := hi.of_mem ht
  exact ⟨job, hj, howns.1, howns.2.2⟩

theorem emplaced {cfg : Config} {d : Disk} (h : (system cfg).Reachable (start d) m)
    {key : PlaybackKey} {inserted : Bool} (he : .emplaceJob key inserted ∈ m.calls) :
    inserted = true := by
  refine h.invariant (I := fun m => .emplaceJob key inserted ∈ m.calls → inserted = true)
    (fun h => by cases h) (fun a m m' _ hs he => ?_) he
  obtain ⟨env, e, q, -, -, -, hc⟩ := called_of_step hs he
  cases hc
  rfl

/-- Ownership of jobs, over every run from any downloads directory. -/
theorem jobs_owned {cfg : Config} {d : Disk} (h : (system cfg).Reachable (start d) m) :
    JobsOwned m ∧ ∀ a m', Machine.step cfg a m = some m' →
      m.nextWorker ≤ m'.nextWorker ∧
        (∀ w, .startDownload w ∈ m'.calls → w.id = m.nextWorker ∧ w.id < m'.nextWorker) ∧
        ∀ w, .package w ∈ m'.calls → w.id = m.nextWorker ∧ w.id < m'.nextWorker := by
  have hi := ownership h
  refine ⟨?_, fun a m' hs => numbered hs⟩
  constructor
  · exact hi.length_tokens
  · exact hi.mem_iff
  · exact fun k job hj => hi.phase hj
  · intro k job hj
    rcases hi.phase hj with ⟨hs, -⟩ | ⟨hs, -⟩
    · simp [hs]
    · simp [hs]
  · exact fun key inserted he => emplaced h he
  · exact nodup_paths hi (named h)
  · exact fun w key ok err he => hi.downloadFinished he
  · exact fun w key ok err he => hi.packageFinished he
  · intro k t ht
    exact (hi.of_mem ht).2.1

end

/-- A download, its packaging, and a second POST in between. -/
def duplicatePost : List Action :=
  [.post (Sample.request "00000000000000aa"), .handle Sample.env,
    .downloadExit (Sample.downloader 0 "00000000000000aa") true "",
    .post (Sample.request "00000000000000aa"), .handle Sample.env, .handle Sample.env]

theorem jobs_owned_duplicatePost :
    ∃ h : ((system Sample.config).replay (start {}) duplicatePost).isSome = true,
      (((system Sample.config).replay (start {}) duplicatePost).get h).2.tokens
        ⟨"00000000000000aa"⟩ = [.packaging 1] ∧
      JobsOwned (((system Sample.config).replay (start {}) duplicatePost).get h).2 :=
  ⟨by decide, by decide, (jobs_owned (System.run_get _).reachable).1⟩

end Machine

end VisionPlayback
