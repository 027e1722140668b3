import VisionPlayback.Eviction
import VisionPlayback.Http.Daemon

/-!
# From the command line to the two configurations

The composition root. The parser splits the arguments and converts the texts of
the numbers; what it hands over is the input here. The downloads directory is
left out: paths on `Disk` are relative to it.
-/

namespace VisionPlayback

open Lib StreamCache

/-- A numeric option, and the `ok` of the conversion of its text. -/
inductive NumberOption (α : Type)
  | unset
  | invalid
  | number (v : α)
  deriving DecidableEq

/-- What an option sets, unless it is not set, does not convert or is refused. -/
def NumberOption.apply {α β : Type} (accepts : α → Bool) (set : α → β) (kept : β) :
    NumberOption α → β
  | .number v => if accepts v then set v else kept
  | .unset | .invalid => kept

structure CommandLine where
  apiKey : Option String := none
  port : NumberOption UInt32 := .unset
  loginIdleTimeout : NumberOption Int32 := .unset
  maxDownloadsGb : NumberOption UInt64 := .unset
  hashAlgorithm : Option String := none

def kDefaultApiKey : String := "visionplayback-dev-key"

def kDefaultPort : UInt16 := 18068

def kDefaultLoginIdleSeconds : Int32 := 600

def kDefaultMaxDownloadsSizeBytes : UInt64 := 2 * 1024 * 1024 * 1024

def kDefaultHashAlgorithm : String := "blake2s-128"

structure Session where
  apiKeyCli : String := kDefaultApiKey
  portCli : UInt16 := kDefaultPort
  loginIdleSecCli : Int32 := kDefaultLoginIdleSeconds
  maxDownloadsBytesCli : UInt64 := kDefaultMaxDownloadsSizeBytes
  hashAlgorithmCli : String := kDefaultHashAlgorithm
  deriving DecidableEq

/-- The digest routines that can be chosen by name. -/
structure Algorithms where
  blake2s128 : Hasher
  sha256 : Hasher
  sha512 : Hasher

/-- An unknown name ends the process. -/
def QtHasher.fromName (algorithms : Algorithms) (name : String) : Option Hasher :=
  if name = "blake2s-128" then some algorithms.blake2s128
  else if name = "sha256" then some algorithms.sha256
  else if name = "sha512" then some algorithms.sha512
  else none

namespace Session

def parseArgs (args : CommandLine) (s : Session) : Session :=
  { apiKeyCli := args.apiKey.getD s.apiKeyCli
    hashAlgorithmCli := args.hashAlgorithm.getD s.hashAlgorithmCli
    portCli := args.port.apply (fun v => v ≤ 0xFFFF) UInt32.toUInt16 s.portCli
    loginIdleSecCli := args.loginIdleTimeout.apply (fun n => 0 < n) id s.loginIdleSecCli
    maxDownloadsBytesCli :=
      args.maxDownloadsGb.apply (fun gb => 0 < gb) (fun gb => gb * 1024 * 1024 * 1024)
        s.maxDownloadsBytesCli }

/-- The steady clock counts nanoseconds. -/
def processorConfig (s : Session) : Config where
  loginIdle := s.loginIdleSecCli.toInt * 1000000000
  maxDownloadsBytes := s.maxDownloadsBytesCli
  hostBase := "http://localhost:" ++ toString s.portCli.toNat

def listenerConfig (s : Session) (hasher : Hasher) : Listener.Config where
  expectedKey := utf8 s.apiKeyCli
  hostBase := "http://localhost:" ++ toString s.portCli.toNat
  hasher := hasher

/-- The daemon that a command line starts, if it starts one. -/
def configure (algorithms : Algorithms) (args : CommandLine) : Option DaemonConfig :=
  let s := parseArgs args {}
  (QtHasher.fromName algorithms s.hashAlgorithmCli).map fun hasher =>
    { http := s.listenerConfig hasher, processor := s.processorConfig }

/-! ## What any command line gives -/

/-- The defaults pass the checks of the options that replace them. -/
theorem parseArgs_defaults (s : Session) :
    parseArgs
      { apiKey := some kDefaultApiKey
        port := .number kDefaultPort.toUInt32
        loginIdleTimeout := .number kDefaultLoginIdleSeconds
        maxDownloadsGb := .number 2
        hashAlgorithm := some kDefaultHashAlgorithm } s = {} := rfl

/-- Sessions are kept for a while, whatever the idle timeout is set to. -/
theorem loginIdle_pos (args : CommandLine) : 0 < (parseArgs args {}).processorConfig.loginIdle := by
  have hsec : 0 < (parseArgs args {}).loginIdleSecCli := by
    show 0 < args.loginIdleTimeout.apply (fun n => 0 < n) id kDefaultLoginIdleSeconds
    cases args.loginIdleTimeout with
    | unset => decide
    | invalid => decide
    | number n =>
      show 0 < if decide (0 < n) = true then id n else kDefaultLoginIdleSeconds
      split
      · next h => exact of_decide_eq_true h
      · decide
  have hint : 0 < (parseArgs args {}).loginIdleSecCli.toInt := Int32.lt_iff_toInt_lt.mp hsec
  show 0 < (parseArgs args {}).loginIdleSecCli.toInt * 1000000000
  omega

/-! ## The capacity option -/

section Capacity

variable {algorithms : Algorithms} {args : CommandLine} {gb : UInt64} {cfg : DaemonConfig}

/-- The product wraps at 64 bits, so what counts is the remainder by 2^34. -/
theorem toNat_bytes (gb : UInt64) :
    (gb * 1024 * 1024 * 1024).toNat = gb.toNat % 2 ^ 34 * 2 ^ 30 := by
  have h1024 : (1024 : UInt64).toNat = 1024 := rfl
  simp only [UInt64.toNat_mul, h1024]
  omega

theorem exact_bytes_iff (gb : UInt64) :
    (gb * 1024 * 1024 * 1024).toNat = gb.toNat * 2 ^ 30 ↔ gb.toNat < 2 ^ 34 := by
  rw [toNat_bytes]
  omega

theorem maxDownloadsBytes_of_configure (hpos : 0 < gb)
    (h : configure algorithms { args with maxDownloadsGb := .number gb } = some cfg) :
    cfg.processor.maxDownloadsBytes = gb * 1024 * 1024 * 1024 := by
  obtain ⟨hasher, -, rfl⟩ := Option.map_eq_some_iff.mp h
  exact if_pos (decide_eq_true hpos)

/-- The capacity 0 means unlimited. These are the command lines that ask for it. -/
theorem maxDownloadsBytes_eq_zero_iff (args : CommandLine) :
    (parseArgs args {}).maxDownloadsBytesCli = 0 ↔
      ∃ gb, args.maxDownloadsGb = .number gb ∧ 0 < gb ∧ 2 ^ 34 ∣ gb.toNat := by
  show args.maxDownloadsGb.apply (fun gb => 0 < gb) (fun gb => gb * 1024 * 1024 * 1024)
    kDefaultMaxDownloadsSizeBytes = 0 ↔ _
  cases args.maxDownloadsGb with
  | unset => simp [NumberOption.apply, kDefaultMaxDownloadsSizeBytes]
  | invalid => simp [NumberOption.apply, kDefaultMaxDownloadsSizeBytes]
  | number gb =>
    by_cases hpos : 0 < gb
    · have hzero : gb * 1024 * 1024 * 1024 = 0 ↔ 2 ^ 34 ∣ gb.toNat := by
        rw [← UInt64.toNat_inj, toNat_bytes]
        show gb.toNat % 2 ^ 34 * 2 ^ 30 = 0 ↔ _
        omega
      simp [NumberOption.apply, hpos, hzero]
    · simp [NumberOption.apply, hpos, kDefaultMaxDownloadsSizeBytes]

theorem ne_zero_of_exact {maxBytes : UInt64} (hpos : 0 < gb)
    (h : maxBytes.toNat = gb.toNat * 2 ^ 30) : maxBytes ≠ 0 := by
  rintro rfl
  have hgb : 0 < gb.toNat := UInt64.lt_iff_toNat_lt.mp hpos
  have hzero : (0 : UInt64).toNat = 0 := rfl
  omega

/-- What the option promises of a daemon that is given `gb` gigabytes. -/
structure MeansGigabytes (algorithms : Algorithms) (args : CommandLine) (gb : UInt64)
    (cfg : DaemonConfig) : Prop where
  exactly : cfg.processor.maxDownloadsBytes.toNat = gb.toNat * 2 ^ 30
  limited : cfg.processor.maxDownloadsBytes ≠ 0
  /-- A pass has nothing to do while the packages fit. -/
  enough : ∀ env skipKeys d, bytesOf d matchesHex16 ≤ gb.toNat * 2 ^ 30 →
    evictToCapacity cfg.processor.maxDownloadsBytes env skipKeys d = (d, [])
  /-- What goes with more gigabytes goes with fewer. -/
  monotone : ∀ fewer cfg', 0 < fewer → fewer ≤ gb →
    configure algorithms { args with maxDownloadsGb := .number fewer } = some cfg' →
    ∀ env skipKeys d, (evictToCapacity cfg.processor.maxDownloadsBytes env skipKeys d).2.Subperm
      (evictToCapacity cfg'.processor.maxDownloadsBytes env skipKeys d).2

/-- **The capacity option.** It means gigabytes while their bytes fit a 64-bit word. -/
theorem meansGigabytes_iff (hpos : 0 < gb)
    (h : configure algorithms { args with maxDownloadsGb := .number gb } = some cfg) :
    MeansGigabytes algorithms args gb cfg ↔ gb.toNat < 2 ^ 34 := by
  have hbytes := maxDownloadsBytes_of_configure hpos h
  constructor
  · intro hm
    have hexact := hm.exactly
    rw [hbytes] at hexact
    exact (exact_bytes_iff gb).mp hexact
  · intro hlt
    have hexact : cfg.processor.maxDownloadsBytes.toNat = gb.toNat * 2 ^ 30 := by
      rw [hbytes]
      exact (exact_bytes_iff gb).mpr hlt
    constructor
    · exact hexact
    · exact ne_zero_of_exact hpos hexact
    · intro env skipKeys d hfits
      exact evictToCapacity_idle (hexact ▸ hfits)
    · intro fewer cfg' hfewer hle h' env skipKeys d
      have hle : fewer.toNat ≤ gb.toNat := UInt64.le_iff_toNat_le.mp hle
      have hexact' : cfg'.processor.maxDownloadsBytes.toNat = fewer.toNat * 2 ^ 30 := by
        rw [maxDownloadsBytes_of_configure hfewer h']
        exact (exact_bytes_iff fewer).mpr (by omega)
      apply removed_subperm (ne_zero_of_exact hfewer hexact')
      rw [UInt64.le_iff_toNat_le]
      omega

end Capacity

namespace Sample

def hasher : Hasher where
  hexDigest _ := "00000000000000aa"
  digits _ := rfl
  long _ := Nat.le_of_ble_eq_true rfl

def algorithms : Algorithms := ⟨hasher, hasher, hasher⟩

/-- `--max-downloads-gb 17179869184`. -/
def wrapping : CommandLine := { maxDownloadsGb := .number (2 ^ 34) }

end Sample

theorem meansGigabytes_iff_two :
    ∃ cfg, configure Sample.algorithms { maxDownloadsGb := .number 2 } = some cfg ∧
      (MeansGigabytes Sample.algorithms {} 2 cfg ↔ (2 : UInt64).toNat < 2 ^ 34) :=
  ⟨_, rfl, meansGigabytes_iff (by decide) rfl⟩

/-- The product wraps to 0, and the daemon removes no package ever. -/
theorem not_meansGigabytes : ∃ cfg, configure Sample.algorithms Sample.wrapping = some cfg ∧
    cfg.processor.maxDownloadsBytes = 0 ∧
    ¬ MeansGigabytes Sample.algorithms Sample.wrapping (2 ^ 34) cfg := by
  refine ⟨_, rfl, rfl, fun hm => ?_⟩
  exact hm.limited rfl

end Session

end VisionPlayback
