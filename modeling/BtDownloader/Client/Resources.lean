import BtDownloader.Client.Cancel
import BtDownloader.Client.Start

set_option autoImplicit false

/-! # What a start acquires

Before it looks at its argument a start turns on the alerts loop, schedules a timer for it and
plays the audio that keeps the app alive. A cancel that keeps the data gives none of this back.

* `not_undone_of_failurePath`: no failing start is undone.
-/

namespace BtDownloader

open Program

variable {m m' : Machine}

/-! ## The resources and what keeps them -/

/-- What a start acquires: the loop flag, the audio and the timers. -/
def Streamer.resources (s : Streamer) : Bool × Bool × List Nat × Option Nat :=
  (s.alertsLoopActive, s.audioPlaying, s.scheduledTimers, s.preventSleepTimer)

theorem resources_cancel {env : Env} {u : Unit}
    (hx : cancelStreamingAndDeleteData env false m = .ok u m') :
    m'.streamer.resources = m.streamer.resources := by
  obtain ⟨-, session, es, -, hs, -⟩ := cancel_keeping_ok hx
  rw [hs]
  rfl

theorem resources_failStart {env : Env} {failure : Option BlockId} {error : NSError} {u : Unit}
    (hx : failStart env failure error m = .ok u m') :
    m'.streamer.resources = m.streamer.resources := by
  obtain ⟨m₁, -, hs₁, hcancel⟩ := failStart_ok hx
  calc m'.streamer.resources = m₁.streamer.resources := resources_cancel hcancel
    _ = m.streamer.resources := by rw [hs₁]; rfl

theorem resources_selectFile {env : Env} {h : Nat} {u : Unit}
    (hx : selectFile env h m = .ok u m') : m'.streamer.resources = m.streamer.resources := by
  obtain ⟨t, md, i, g, es, fe, -, -, -, -, -, hs⟩ := selectFile_ok hx
  rw [hs]
  rfl

theorem resources_metadataReceivedAlert {env : Env} {h : Nat} {u : Unit}
    (hx : metadataReceivedAlert env h m = .ok u m') :
    m'.streamer.resources = m.streamer.resources := by
  obtain ⟨-, -, ⟨-, m₁, -, hs₁, hcancel⟩ | ⟨-, m₁, -, hs₁, hselect⟩⟩ := metadataReceivedAlert_ok hx
  · calc m'.streamer.resources = m₁.streamer.resources := resources_cancel hcancel
      _ = m.streamer.resources := by rw [hs₁]; rfl
  · calc m'.streamer.resources = m₁.streamer.resources := resources_selectFile hselect
      _ = m.streamer.resources := by rw [hs₁]; rfl

theorem resources_addAndResume {env : Env} {arg : Text} {failure : Option BlockId}
    {tp : AddTorrentParams} {u : Unit} (hx : addAndResume env arg failure tp m = .ok u m') :
    m'.streamer.resources = m.streamer.resources := by
  obtain ⟨h, s₁, m₂, m₃, hadds, -, -, hs₂, hmeta, -, hs'⟩ := addAndResume_ok hx
  have hadded : s₁.resources = m.streamer.resources := by cases hadds <;> rfl
  have hmeta : m₃.streamer.resources = m₂.streamer.resources := by
    rcases hmeta with ⟨-, rfl⟩ | ⟨-, hmeta⟩
    · rfl
    · exact resources_metadataReceivedAlert hmeta
  calc m'.streamer.resources = m₃.streamer.resources := by rw [hs']; rfl
    _ = m₂.streamer.resources := hmeta
    _ = s₁.resources := by rw [hs₂]; rfl
    _ = m.streamer.resources := hadded

/-- **A start that returns has acquired its resources and keeps them**, however it ends. -/
theorem resources_start {env : Env} {arg : Text} {directoryName : Option Text}
    {progress readyToPlay failure : Option BlockId} {u : Unit}
    (hx : startStreamingFromFileInDirectory env arg directoryName progress readyToPlay failure m
      = .ok u m') :
    m'.streamer.resources = (m.streamer.acquire progress readyToPlay failure).resources := by
  rcases startStreamingFromFileInDirectory_ok hx with ⟨-, -, error, hfail⟩ |
    ⟨tp, md5, m₁, hloads, -, error, path?, m₂, -, hs₂, -, hfail⟩ |
    ⟨tp, md5, m₁, hloads, path, m₂, -, -, hs₂, hadd⟩
  · exact resources_failStart hfail
  · obtain ⟨es, hs₁⟩ := hloads.frame
    rw [resources_failStart hfail, hs₂, hs₁]
    rfl
  · obtain ⟨es, hs₁⟩ := hloads.frame
    rw [resources_addAndResume hadd, hs₂, hs₁]
    rfl

/-! ## The failure paths of a start -/

/-- What a start reads from its argument: the parameters for `add_torrent` and the MD5
string. -/
def Env.params? (env : Env) (arg : Text) : Option (AddTorrentParams × Text) :=
  if isMagnet arg then (env.parseMagnetUri arg).toOption.map fun tp => (tp, env.md5 arg)
  else if env.fileExists arg then (env.torrentFile arg).toOption.map fun ti =>
    ({ infoHash := ti.infoHash, ti := some ti }, env.fileMD5 arg)
  else none

/-- The parameters with which a start comes to `add_torrent`. -/
def Env.addParams? (env : Env) (arg : Text) (directoryName : Option Text) :
    Option AddTorrentParams := do
  let (tp, md5) ← env.params? arg
  let path ← openedPath env md5 directoryName
  some (finalParams env arg path tp)

/-- The failure paths of a start, each by what makes the start take it. -/
inductive FailurePath (env : Env) (arg : Text) (directoryName : Option Text) (m : Machine) : Prop
  | missing (hfile : isMagnet arg = false) (hmissing : env.fileExists arg = false)
  | unparsable (message : Text) (hfile : isMagnet arg = false)
      (hexists : env.fileExists arg = true) (hparse : env.torrentFile arg = .error message)
  | folder (tp : AddTorrentParams) (md5 : Text) (hread : env.params? arg = some (tp, md5))
      (hclosed : openedPath env md5 directoryName = none)
  | refused (tp : AddTorrentParams) (hadd : env.addParams? arg directoryName = some tp)
      (hrefused : env.refusal tp ≠ none)
  | noRoom (tp : AddTorrentParams) (hadd : env.addParams? arg directoryName = some tp)
      (hfile : isMagnet arg = false) (hlow : env.LowSpace (m.streamer.session.handleFor tp))

/-- The torrent that is added or found is that of the live run. -/
theorem Adds.handleFor {tp : AddTorrentParams} {s s₁ : Streamer} {h : Nat}
    (hadds : Adds tp s h s₁) : h = s.session.handleFor tp ∧ s₁.live = some h := by
  unfold Session.handleFor
  cases hadds with
  | found t ht =>
      have hholding : s.session.holding? tp = some t := ht
      rw [hholding]
      exact ⟨rfl, by rw [Streamer.live, Streamer.log, List.foldl_append]; rfl⟩
  | added order hnew =>
      have hholding : s.session.holding? tp = none := hnew
      rw [hholding]
      exact ⟨rfl, by rw [Streamer.live, Streamer.withSession, List.foldl_append]; rfl⟩

theorem Loads.params? {env : Env} {arg : Text} {p : AddTorrentParams × Text}
    (h : Loads env arg m m' p) : env.params? arg = some p := by
  unfold Env.params?
  cases h with
  | magnet tp hmagnet hparse =>
      rw [if_pos hmagnet, hparse]
      rfl
  | file md i fe g es hfile hexists hparse =>
      rw [if_neg (by simp [hfile]), if_pos hexists, hparse]
      rfl

theorem Loads.addParams? {env : Env} {arg md5 : Text} {directoryName : Option Text}
    {tp : AddTorrentParams} (h : Loads env arg m m' (tp, md5)) :
    env.addParams? arg directoryName =
      (openedPath env md5 directoryName).map fun path => finalParams env arg path tp := by
  simp only [Env.addParams?, h.params?, Option.bind_eq_bind, Option.bind_some]
  cases openedPath env md5 directoryName with
  | none => rfl
  | some path => rfl

theorem params?_missing {env : Env} {arg : Text} (hfile : isMagnet arg = false)
    (hmissing : env.fileExists arg = false) : env.params? arg = none := by
  simp [Env.params?, hfile, hmissing]

theorem addParams?_eq_none {env : Env} {arg : Text} {directoryName : Option Text}
    (h : env.params? arg = none) : env.addParams? arg directoryName = none := by
  unfold Env.addParams?
  rw [h]
  rfl

variable {b : BlockId} {env : Env} {arg : Text} {directoryName : Option Text}
  {progress readyToPlay : Option BlockId}

/-- **A failing start that returns has reported one failure.** -/
theorem failures_of_failurePath {u : Unit} (hpath : FailurePath env arg directoryName m)
    (hx : startStreamingFromFileInDirectory env arg directoryName progress readyToPlay (some b) m
      = .ok u m') : ∃ added, m.streamer.Tells b added 1 m'.streamer := by
  rcases tells_start hx with ⟨hfile, hmissing, htells⟩ | ⟨tp, md5, m₁, hloads, hrest⟩
  · exact ⟨0, htells⟩
  rcases hrest with ⟨hclosed, htells⟩ | ⟨path, hopened, haccepts, htells⟩
  · exact ⟨0, htells⟩
  have hread := hloads.params?
  have hadd : env.addParams? arg directoryName = some (finalParams env arg path tp) := by
    rw [hloads.addParams?, hopened]
    rfl
  -- `add_torrent` was reached and took the parameters: only the lack of room is left
  cases hpath with
  | missing hfile hmissing =>
      rw [params?_missing hfile hmissing] at hread
      cases hread
  | unparsable message hfile hexists hparse =>
      have hnone : env.params? arg = none := by
        simp [Env.params?, hfile, hexists, hparse, Except.toOption]
      rw [hnone] at hread
      cases hread
  | folder tp' md5' hread' hclosed =>
      cases hread.symm.trans hread'
      rw [hopened] at hclosed
      cases hclosed
  | refused tp' hadd' hrefused =>
      obtain rfl := Option.some.inj (hadd.symm.trans hadd')
      exact absurd haccepts hrefused
  | noRoom tp' hadd' hfile hlow =>
      obtain rfl := Option.some.inj (hadd.symm.trans hadd')
      have hone : (if isMagnet arg = false ∧ env.LowSpace (m.streamer.session.handleFor
          (finalParams env arg path tp)) then 1 else 0) = 1 := if_pos ⟨hfile, hlow⟩
      rw [hone] at htells
      exact ⟨_, htells⟩

/-! ## Undone starts -/

/-- The start from `m` to `m'` is undone: one failure was reported, and the streamer is idle. -/
structure Undone (failure : BlockId) (m m' : Machine) : Prop where
  reported : ∃ added, m.streamer.Tells failure added 1 m'.streamer
  loop : m'.streamer.alertsLoopActive = false
  timers : m'.streamer.scheduledTimers = []
  audio : m'.streamer.audioPlaying = false
  torrents : ∀ t ∈ m'.streamer.session.torrents, t.paused = true
  session : m'.streamer.session.torrents ≠ [] → m'.streamer.session.paused = true

/-- What a failing start leaves behind: it has reported the failure, but the alerts loop is
on, its timer is scheduled and the audio plays. -/
structure LeftRunning (failure : BlockId) (m m' : Machine) : Prop where
  reported : ∃ added, m.streamer.Tells failure added 1 m'.streamer
  loop : m'.streamer.alertsLoopActive = true
  timers : m'.streamer.scheduledTimers = m.streamer.scheduledTimers ++ [m.streamer.nextTimer]
  audio : m'.streamer.audioPlaying = true

theorem leftRunning_of_failurePath {u : Unit} (hpath : FailurePath env arg directoryName m)
    (hx : startStreamingFromFileInDirectory env arg directoryName progress readyToPlay (some b) m
      = .ok u m') : LeftRunning b m m' := by
  have hresources : m'.streamer.resources =
      (true, true, m.streamer.scheduledTimers ++ [m.streamer.nextTimer],
        some m.streamer.nextTimer) := resources_start hx
  simp only [Streamer.resources, Prod.mk.injEq] at hresources
  obtain ⟨hloop, haudio, htimers, -⟩ := hresources
  exact ⟨failures_of_failurePath hpath hx, hloop, htimers, haudio⟩

/-- **No failing start is undone**, on whichever failure path, in whichever state of the
streamer: it does not return, or it leaves the streamer running. -/
theorem not_undone_of_failurePath (hpath : FailurePath env arg directoryName m) :
    ¬ ∃ m', startStreamingFromFileInDirectory env arg directoryName progress readyToPlay (some b) m
      = .ok () m' ∧ Undone b m m' := by
  rintro ⟨m', hx, hundone⟩
  have hloop := (leftRunning_of_failurePath hpath hx).loop
  rw [hundone.loop] at hloop
  cases hloop

/-- Answers for a file that is missing. -/
def Env.missing : Env :=
  { Env.calm (Metadata.films 1 40 []) fun _ => false with fileExists := fun _ => false }

/-- Answers with which the device has no room for the download. -/
def Env.full : Env :=
  { Env.calm (Metadata.films 1 40 []) fun _ => false with
    status := fun _ => { totalWanted := 1 } }

/-- The flags after the start of a file. -/
def flagsAfterStart (env : Env) : Option (Bool × Bool × List Nat × Bool) :=
  match startStreamingFromFile env "a.torrent".toList none none (some ⟨0, 0⟩) (Machine.init 0) with
  | .ok _ m => some (m.streamer.alertsLoopActive, m.streamer.audioPlaying,
      m.streamer.scheduledTimers, m.streamer.session.paused)
  | .error _ _ => none

/-- The start of a missing file returns and leaves the loop, the timer and the audio on. -/
theorem not_undone_missingFile :
    ¬ ∀ (env : Env) (arg : Text) (directoryName : Option Text)
      (progress readyToPlay : Option BlockId) (failure : BlockId) (m : Machine), Reachable m →
      FailurePath env arg directoryName m → ∀ m',
      startStreamingFromFileInDirectory env arg directoryName progress readyToPlay (some failure) m
        = .ok () m' → Undone failure m m' := by
  intro h
  have hflags : flagsAfterStart .missing = some (true, true, [0], false) := by decide +kernel
  unfold flagsAfterStart at hflags
  cases hx : startStreamingFromFile .missing "a.torrent".toList none none (some ⟨0, 0⟩)
      (Machine.init 0) with
  | error fault m =>
      rw [hx] at hflags
      cases hflags
  | ok u m =>
      rw [hx] at hflags
      have hundone := h .missing "a.torrent".toList none none none ⟨0, 0⟩ (Machine.init 0)
        ⟨0, [], rfl⟩ (.missing (by decide) rfl) m hx
      have hloop : m.streamer.alertsLoopActive = true := congrArg Prod.fst (Option.some.inj hflags)
      rw [hundone.loop] at hloop
      cases hloop

/-- A torrent file on a device without room for it. -/
theorem not_undone_noRoom :
    ¬ ∃ m', startStreamingFromFileInDirectory .full "a.torrent".toList none none none
      (some ⟨0, 0⟩) (Machine.init 0) = .ok () m' ∧ Undone ⟨0, 0⟩ (Machine.init 0) m' := by
  refine not_undone_of_failurePath (.noRoom _ rfl ?_ ?_)
  · decide
  · decide +kernel

end BtDownloader
