import BtDownloader.Client.Resources
import BtDownloader.Client.SingleRun

set_option autoImplicit false

/-! # The alert timers

Each start schedules a timer and keeps a reference to it alone. Only a cancel that deletes the
data and the announcement of a finished download invalidate it; a cancel that keeps the data, a
failing start and the arrival of resume data do not.

* `timed_run`: in which runs at most one timer is scheduled, and none once the streamer has
  stopped.
-/

namespace BtDownloader

open Program

variable {m m' : Machine}

/-! ## Timers and stopping -/

/-- The scheduled timers, and the one the streamer has a reference to. -/
def Streamer.timers (s : Streamer) : List Nat × Option Nat :=
  (s.scheduledTimers, s.preventSleepTimer)

theorem timers_of_resources {s s' : Streamer} (h : s'.resources = s.resources) :
    s'.timers = s.timers := by
  simp only [Streamer.resources, Prod.mk.injEq] at h
  obtain ⟨-, -, htimers, href⟩ := h
  rw [Streamer.timers, Streamer.timers, htimers, href]

/-- The streamer has stopped: no run is live, and libtorrent owes it no alert. -/
def Streamer.Stopped (s : Streamer) : Prop := s.live = none ∧ s.session.outstanding = []

instance (s : Streamer) : Decidable s.Stopped := inferInstanceAs (Decidable (_ ∧ _))

/-- At most one timer is scheduled, and none once the streamer has stopped. -/
structure Streamer.Timed (s : Streamer) : Prop where
  atMostOne : s.scheduledTimers.length ≤ 1
  stopped : s.Stopped → s.scheduledTimers = []

/-- The one timer that may be scheduled is the one the streamer can invalidate. -/
structure Streamer.OneTimer (s : Streamer) : Prop where
  atMostOne : s.scheduledTimers.length ≤ 1
  current : ∀ t ∈ s.scheduledTimers, s.preventSleepTimer = some t

theorem Streamer.OneTimer.of_timers {s s' : Streamer} (h : s.OneTimer)
    (heq : s'.timers = s.timers) : s'.OneTimer := by
  simp only [Streamer.timers, Prod.mk.injEq] at heq
  obtain ⟨htimers, href⟩ := heq
  exact ⟨by rw [htimers]; exact h.atMostOne, by rw [htimers, href]; exact h.current⟩

theorem oneTimer_of_nil {s : Streamer} (h : s.scheduledTimers = []) : s.OneTimer :=
  ⟨by simp [h], by simp [h]⟩

/-- Invalidating the timer leaves none scheduled. -/
theorem Streamer.OneTimer.invalidate {s : Streamer} (h : s.OneTimer) :
    s.invalidateTimer.scheduledTimers = [] := by
  show s.scheduledTimers.filter _ = []
  rw [List.filter_eq_nil_iff]
  intro t ht
  simp [h.current t ht]

/-- The invariant: the timer is under control, and it is gone once the streamer has stopped. -/
structure Streamer.Controls (s : Streamer) : Prop where
  one : s.OneTimer
  stopped : s.Stopped → s.scheduledTimers = []

theorem Streamer.Controls.timed {s : Streamer} (h : s.Controls) : s.Timed :=
  ⟨h.one.atMostOne, h.stopped⟩

theorem controls_of_nil {s : Streamer} (h : s.scheduledTimers = []) : s.Controls :=
  ⟨oneTimer_of_nil h, fun _ => h⟩

/-- A step that leaves the timers alone and does not stop the streamer keeps the invariant. -/
theorem controls_of_running {s s' : Streamer} (h : s.OneTimer) (heq : s'.timers = s.timers)
    (hrunning : s.scheduledTimers ≠ [] → ¬ s'.Stopped) : s'.Controls := by
  refine ⟨h.of_timers heq, fun hstopped => ?_⟩
  have htimers : s'.scheduledTimers = s.scheduledTimers := congrArg Prod.fst heq
  by_contra hne
  rw [htimers] at hne
  exact hrunning hne hstopped

/-! ## What libtorrent owes after a cancel -/

/-- The resume data of torrent `h` is needed, and `save_resume_data` can give it. -/
def Env.owesResumeData (env : Env) (session : Session) (h : Nat) : Bool :=
  env.needSaveResumeData h && session.hasMetadata h

theorem hasMetadata_sent {env : Env} {h : Nat} {cs : List TorrentCommand} {s : Streamer}
    (h' : Nat) : (s.sent env h cs).session.hasMetadata h' = s.session.hasMetadata h' := by
  refine Session.hasMetadata_map (rfl : (s.sent env h cs).session.torrents = _) (fun t => ?_)
    (fun t => ?_) h'
  · split
    · exact Torrent.applyAll_handle _ _ _
    · rfl
  · split
    · exact Torrent.applyAll_info _ _ _
    · rfl

theorem cancelTorrent_outstanding {env : Env} {h : Nat} {u : Unit}
    (hx : cancelTorrent env false h m = .ok u m') :
    m'.streamer.session.outstanding = m.streamer.session.outstanding ++
      if env.owesResumeData m.streamer.session h then [.saveResumeData h] else [] := by
  obtain ⟨_, m₁, h₁, k₁⟩ := bind_eq_ok.mp hx
  replace h₁ := (send_eq_ok.mp h₁).2
  obtain ⟨_, m₂, h₂, k₂⟩ := bind_eq_ok.mp k₁
  obtain ⟨_, m₃, h₃, k₃⟩ := bind_eq_ok.mp k₂
  replace h₃ := (send_eq_ok.mp h₃).2
  obtain ⟨_, m₄, h₄, k₄⟩ := bind_eq_ok.mp k₃
  replace h₄ := modifies_eq_ok.mp h₄
  have hm' : m' = m₄ := by
    rcases whenever_eq_ok.mp k₄ with ⟨hd, -⟩ | ⟨-, hm'⟩
    · cases hd
    · exact hm'
  -- whether the torrent has metadata is as it was before the commands
  have hknown : m₁.streamer.session.hasMetadata h = m.streamer.session.hasMetadata h := by
    rw [h₁]
    exact hasMetadata_sent h
  have hsaved : m₂.streamer.session.outstanding = m₁.streamer.session.outstanding ++
      if env.owesResumeData m.streamer.session h then [.saveResumeData h] else [] := by
    unfold Env.owesResumeData
    -- the alert is owed where save_resume_data was called with metadata there
    rcases whenever_eq_ok.mp h₂ with ⟨hneed, hsave⟩ | ⟨hneed, hm₂⟩
    · obtain ⟨_, m₅, h₅, k₅⟩ := bind_eq_ok.mp hsave
      replace h₅ := (send_eq_ok.mp h₅).2
      replace k₅ := modifies_eq_ok.mp k₅
      have hneed : env.needSaveResumeData h = true := by simpa using hneed
      have hknown₅ : m₅.streamer.session.hasMetadata h = m.streamer.session.hasMetadata h := by
        rw [h₅]
        exact (hasMetadata_sent h).trans hknown
      have howed₅ : m₅.streamer.session.outstanding = m₁.streamer.session.outstanding := by
        rw [h₅]
        rfl
      rw [k₅, hneed, Bool.true_and]
      show (m₅.streamer.session.oweResumeData h).outstanding = _
      rw [Session.oweResumeData_outstanding, howed₅, hknown₅]
    · have hneed : env.needSaveResumeData h = false := by simpa using hneed
      rw [hneed, Bool.false_and, if_neg Bool.false_ne_true, hm₂, List.append_nil]
  calc m'.streamer.session.outstanding = m₂.streamer.session.outstanding := by
        rw [hm', h₄, h₃]
        rfl
    _ = _ := hsaved
    _ = _ := by
        rw [h₁]
        rfl

theorem TearsDown.hasMetadata {hs : List Nat} (h : TearsDown false hs m m') (h' : Nat) :
    m'.streamer.session.hasMetadata h' = m.streamer.session.hasMetadata h' := by
  obtain ⟨-, session, es, hs', hpaused, -⟩ := h
  rw [hs']
  have htorrents := hpaused.torrents_eq rfl
  refine Session.hasMetadata_map htorrents (fun t => ?_) (fun t => ?_) h'
  · split <;> rfl
  · split <;> rfl

theorem each_cancelTorrent_outstanding {env : Env} {hs : List Nat}
    (hx : each (cancelTorrent env false) hs m = .ok () m') :
    m'.streamer.session.outstanding = m.streamer.session.outstanding ++
      (hs.filter (env.owesResumeData m.streamer.session)).map .saveResumeData := by
  induction hs generalizing m with
  | nil =>
      rw [(pure_eq_ok.mp hx).2]
      simp
  | cons h hs ih =>
      obtain ⟨m₁, h₁, hrest⟩ := each_cons_ok.mp hx
      have hsame : env.owesResumeData m₁.streamer.session =
          env.owesResumeData m.streamer.session := by
        funext h'
        rw [Env.owesResumeData, (cancelTorrent_ok h₁).hasMetadata]
        rfl
      rw [ih hrest, cancelTorrent_outstanding h₁, List.append_assoc, List.filter_cons, hsame]
      by_cases howes : env.owesResumeData m.streamer.session h = true
      · simp [howes]
      · simp [howes]

/-- After a cancel that keeps the data libtorrent owes the resume data of every torrent that
needs it and whose metadata is known. -/
theorem cancel_outstanding {env : Env} {u : Unit}
    (hx : cancelStreamingAndDeleteData env false m = .ok u m') :
    m'.streamer.session.outstanding = m.streamer.session.outstanding ++
      ((m.streamer.session.torrents.map (·.handle)).filter
        (env.owesResumeData m.streamer.session)).map .saveResumeData := by
  obtain ⟨ths, m₁, h₁, k₁⟩ := bind_eq_ok.mp hx
  obtain ⟨hths, hm₁⟩ := gets_eq_ok.mp h₁
  obtain ⟨_, m₂, h₂, k₂⟩ := bind_eq_ok.mp k₁
  obtain ⟨_, m₃, h₃, k₃⟩ := bind_eq_ok.mp k₂
  replace h₃ := modifies_eq_ok.mp h₃
  obtain ⟨_, m₄, h₄, k₄⟩ := bind_eq_ok.mp k₃
  replace h₄ := setSelectedFileIndex_eq_ok.mp h₄
  obtain ⟨_, m₅, h₅, k₅⟩ := bind_eq_ok.mp k₄
  replace h₅ := emit_eq_ok.mp h₅
  obtain ⟨_, m₆, h₆, k₆⟩ := bind_eq_ok.mp k₅
  replace h₆ := dispatchMain_eq_ok.mp h₆
  have hm' : m' = m₆ := by
    rcases whenever_eq_ok.mp k₆ with ⟨hd, -⟩ | ⟨-, hm'⟩
    · cases hd
    · exact hm'
  -- after the loop the cancel lets the session alone
  have hsame : m'.streamer.session = m₂.streamer.session := by
    rw [hm', h₆, h₅, h₄, h₃]
    rfl
  rw [hsame, each_cancelTorrent_outstanding h₂, hths, hm₁]

/-- Once everything is cancelled, libtorrent still owes an alert. -/
def Env.StillOwes (env : Env) (session : Session) : Prop :=
  session.outstanding ≠ [] ∨ ∃ t ∈ session.torrents, env.owesResumeData session t.handle = true

instance (env : Env) (session : Session) : Decidable (env.StillOwes session) :=
  inferInstanceAs (Decidable (_ ∨ _))

theorem outstanding_ne_nil_of_stillOwes {env : Env} {u : Unit}
    (hx : cancelStreamingAndDeleteData env false m = .ok u m')
    (howes : env.StillOwes m.streamer.session) : m'.streamer.session.outstanding ≠ [] := by
  rw [cancel_outstanding hx]
  rcases howes with hne | ⟨t, ht, hneed⟩
  · exact List.append_ne_nil_of_left_ne_nil hne _
  · refine List.append_ne_nil_of_right_ne_nil _
      (List.ne_nil_of_mem (a := .saveResumeData t.handle) ?_)
    refine List.mem_map_of_mem (List.mem_filter.mpr ⟨List.mem_map_of_mem ht, hneed⟩)

/-! ## When an alert keeps the timer under control -/

/-- The alert does not stop the streamer while a timer stays scheduled, in the state it finds.

* Where the metadata alert finds no room for the download, or `pieceFinishedAlert` does when it
  handles the metadata again, the run is cancelled: libtorrent must still owe an alert then.
* A torrent that finishes is announced, which invalidates the timer, or another run is live.
* No other alert may be the last one that a run that has ended waits for. -/
def AlertControls (m : Machine) (d : Env × Alert) : Prop :=
  let s := m.streamer.delivers d.2
  s.scheduledTimers ≠ [] → match d.2 with
    | .metadataReceived h =>
        if d.1.LowSpace h then d.1.StillOwes s.session else ¬ s.Stopped
    | .pieceFinished h _ =>
        if m.allPresent d.1 h = true ∧ m.globals.minPieces = 0 ∧ d.1.LowSpace h then
          d.1.StillOwes s.session
        else ¬ s.Stopped
    | .torrentFinished h =>
        (s.streaming = false ∧ s.readyToPlayBlock.isSome = true) ∨ s.session.outstanding ≠ [] ∨
          (s.live ≠ none ∧ s.live ≠ some h)
    | .saveResumeData _ => ¬ s.Stopped

instance (m : Machine) : ∀ d : Env × Alert, Decidable (AlertControls m d)
  | (env, .metadataReceived h) => inferInstanceAs (Decidable
      ((m.streamer.delivers (.metadataReceived h)).scheduledTimers ≠ [] →
        if env.LowSpace h then
          env.StillOwes (m.streamer.delivers (.metadataReceived h)).session
        else ¬ (m.streamer.delivers (.metadataReceived h)).Stopped))
  | (env, .pieceFinished h p) => inferInstanceAs (Decidable
      ((m.streamer.delivers (.pieceFinished h p)).scheduledTimers ≠ [] →
        if m.allPresent env h = true ∧ m.globals.minPieces = 0 ∧ env.LowSpace h then
          env.StillOwes (m.streamer.delivers (.pieceFinished h p)).session
        else ¬ (m.streamer.delivers (.pieceFinished h p)).Stopped))
  | (_, .torrentFinished h) => inferInstanceAs (Decidable
      ((m.streamer.delivers (.torrentFinished h)).scheduledTimers ≠ [] →
        ((m.streamer.delivers (.torrentFinished h)).streaming = false ∧
          (m.streamer.delivers (.torrentFinished h)).readyToPlayBlock.isSome = true) ∨
        (m.streamer.delivers (.torrentFinished h)).session.outstanding ≠ [] ∨
          ((m.streamer.delivers (.torrentFinished h)).live ≠ none ∧
            (m.streamer.delivers (.torrentFinished h)).live ≠ some h)))
  | (_, .saveResumeData h) => inferInstanceAs (Decidable
      ((m.streamer.delivers (.saveResumeData h)).scheduledTimers ≠ [] →
        ¬ (m.streamer.delivers (.saveResumeData h)).Stopped))

/-- A cancel that keeps the data, while libtorrent goes on owing an alert. -/
theorem controls_cancel_of_stillOwes {env : Env} {u : Unit} (hm : m.streamer.OneTimer)
    (howes : m.streamer.scheduledTimers ≠ [] → env.StillOwes m.streamer.session)
    (hx : cancelStreamingAndDeleteData env false m = .ok u m') : m'.streamer.Controls := by
  refine controls_of_running hm (timers_of_resources (resources_cancel hx)) ?_
  intro hne hstopped
  exact outstanding_ne_nil_of_stillOwes hx (howes hne) hstopped.2

theorem selectFile_outstanding {env : Env} {h : Nat} {u : Unit}
    (hx : selectFile env h m = .ok u m') :
    m'.streamer.session.outstanding = m.streamer.session.outstanding := by
  obtain ⟨t, md, i, g, es, fe, -, -, -, -, -, hs⟩ := selectFile_ok hx
  rw [hs]
  rfl

/-- Where no run ends and no alert is handed over, the streamer stops no more than before. -/
theorem Streamer.Frames.stopped {s s' : Streamer} (h : s.Frames s')
    (howed : s'.session.outstanding = s.session.outstanding) : s'.Stopped ↔ s.Stopped := by
  unfold Streamer.Stopped
  rw [h.live_eq, howed]

theorem controls_metadataReceivedAlert {env : Env} {h : Nat} {u : Unit} (hm : m.streamer.OneTimer)
    (hcond : m.streamer.scheduledTimers ≠ [] →
      if env.LowSpace h then env.StillOwes m.streamer.session else ¬ m.streamer.Stopped)
    (hx : metadataReceivedAlert env h m = .ok u m') : m'.streamer.Controls := by
  have htimers := timers_of_resources (resources_metadataReceivedAlert hx)
  refine controls_of_running hm htimers fun hne hstopped => ?_
  have hcond := hcond hne
  obtain ⟨-, -, ⟨hlow, m₁, -, hs₁, hcancel⟩ | ⟨hroom, m₁, -, hs₁, hselect⟩⟩ :=
    metadataReceivedAlert_ok hx
  · rw [if_pos hlow] at hcond
    refine outstanding_ne_nil_of_stillOwes hcancel ?_ hstopped.2
    rw [hs₁]
    exact hcond
  · rw [if_neg hroom] at hcond
    have hframes : m.streamer.Frames m'.streamer := by
      refine Streamer.Frames.trans ?_ (frames_selectFile hselect)
      rw [hs₁]
      exact (Streamer.Frames.refl _).of_eq rfl rfl rfl rfl rfl
    have howed : m'.streamer.session.outstanding = m.streamer.session.outstanding := by
      rw [selectFile_outstanding hselect, hs₁]
      rfl
    exact hcond ((hframes.stopped howed).mp hstopped)

/-- Moving the window on neither ends a run nor touches a timer. -/
theorem controls_prioritizeNextPieces {env : Env} {h : Nat} {u : Unit}
    (hm : m.streamer.Controls) (hx : prioritizeNextPieces env h m = .ok u m') :
    m'.streamer.Controls := by
  have hframes := frames_prioritizeNextPieces hx
  obtain ⟨next, t, ps, -, -, -, -, -, hs⟩ := prioritizeNextPieces_ok hx
  have htimers : m'.streamer.timers = m.streamer.timers := by
    rw [hs]
    rfl
  have howed : m'.streamer.session.outstanding = m.streamer.session.outstanding := by
    rw [hs]
    rfl
  refine controls_of_running hm.one htimers fun hne hstopped => ?_
  exact hne (hm.stopped ((hframes.stopped howed).mp hstopped))

theorem controls_pieceFinishedAlert {env : Env} {h : Nat} {u : Unit} (hm : m.streamer.OneTimer)
    (hcond : m.streamer.scheduledTimers ≠ [] →
      if m.allPresent env h = true ∧ m.globals.minPieces = 0 ∧ env.LowSpace h then
        env.StillOwes m.streamer.session
      else ¬ m.streamer.Stopped)
    (hx : pieceFinishedAlert env h m = .ok u m') : m'.streamer.Controls := by
  obtain ⟨-, n, m₁, -, hs₁, hcases⟩ := pieceFinishedAlert_ok hx
  have hframes₁ : m.streamer.Frames m₁.streamer := by
    rw [hs₁]
    exact frames_progress _ _ _
  have howed₁ : m₁.streamer.session = m.streamer.session := by
    rw [hs₁]
    rfl
  have htimers₁ : m₁.streamer.timers = m.streamer.timers := by
    rw [hs₁]
    rfl
  have hone₁ := hm.of_timers htimers₁
  have hscheduled₁ : m₁.streamer.scheduledTimers = m.streamer.scheduledTimers :=
    congrArg Prod.fst htimers₁
  -- where the metadata is not handled again, the streamer is as stopped as it was
  have hstill : ¬ (m.allPresent env h = true ∧ m.globals.minPieces = 0 ∧ env.LowSpace h) →
      m.streamer.scheduledTimers ≠ [] → ¬ m₁.streamer.Stopped := by
    intro hno hne hstopped
    have hcond := hcond hne
    rw [if_neg hno] at hcond
    exact hcond ((hframes₁.stopped (by rw [howed₁])).mp hstopped)
  rcases hcases with ⟨hmissing, -, hs'⟩ | ⟨hall, m₂, hnext, hagain⟩
  · rw [hs']
    exact controls_of_running hm htimers₁ (hstill (by simp [hmissing]))
  · refine controls_prioritizeNextPieces ?_ hnext
    rcases hagain with ⟨hpos, -, hs₂⟩ | ⟨hzero, m₃, -, hs₃, hmeta⟩
    · rw [hs₂]
      exact controls_of_running hm htimers₁ (hstill (by simp [hpos]))
    · refine controls_metadataReceivedAlert (by rwa [hs₃]) ?_ hmeta
      rw [hs₃, hscheduled₁, howed₁]
      intro hne
      by_cases hlow : env.LowSpace h
      · have hcond := hcond hne
        rw [if_pos ⟨hall, hzero, hlow⟩] at hcond
        rwa [if_pos hlow]
      · rw [if_neg hlow]
        exact hstill (by simp [hlow]) hne

/-- A finished torrent invalidates the timer when it is announced. -/
theorem controls_torrentFinishedAlert {env : Env} {h : Nat} {u : Unit} (hm : m.streamer.OneTimer)
    (hcond : m.streamer.scheduledTimers ≠ [] →
      (m.streamer.streaming = false ∧ m.streamer.readyToPlayBlock.isSome = true) ∨
        m.streamer.session.outstanding ≠ [] ∨
        (m.streamer.live ≠ none ∧ m.streamer.live ≠ some h))
    (hx : torrentFinishedAlert env h m = .ok u m') : m'.streamer.Controls := by
  obtain ⟨-, m₁, hprocess, -, hs'⟩ := torrentFinishedAlert_ok hx
  obtain ⟨hlive, -⟩ := processTorrent_keeps hprocess
  have hsession := processTorrent_session hprocess
  have htimers' : m'.streamer.timers = m₁.streamer.timers := by
    rw [hs']
    rfl
  have howed : m'.streamer.session.outstanding = m.streamer.session.outstanding := by
    rw [hs', ← hsession]
    rfl
  by_cases hannounced : m.streamer.streaming = false ∧ m.streamer.readyToPlayBlock.isSome = true
  · -- the announcement leaves no timer
    rcases processTorrent_ok hprocess with ⟨hstreaming, -⟩ |
      ⟨-, t, md, fe, i, es, -, -, -, -, hs₁⟩
    · rw [hannounced.1] at hstreaming
      cases hstreaming
    · dsimp only at hs₁
      rw [if_pos hannounced.2] at hs₁
      refine controls_of_nil ?_
      calc m'.streamer.scheduledTimers = m₁.streamer.scheduledTimers := congrArg Prod.fst htimers'
        _ = m.streamer.invalidateTimer.scheduledTimers := by rw [hs₁]; rfl
        _ = [] := hm.invalidate
  -- without an announcement the timers are as before, and so must the run be
  · have htimers₁ : m₁.streamer.timers = m.streamer.timers := by
      rcases processTorrent_ok hprocess with ⟨-, rfl⟩ |
        ⟨hstreaming, t, md, fe, i, es, -, -, -, -, hs₁⟩
      · rfl
      · have hnone : ¬ m.streamer.readyToPlayBlock.isSome = true :=
          fun hsome => hannounced ⟨hstreaming, hsome⟩
        dsimp only at hs₁
        rw [if_neg hnone] at hs₁
        rw [hs₁]
        rfl
    refine controls_of_running hm (htimers'.trans htimers₁) fun hne hstopped => ?_
    have hlive' : m'.streamer.live =
        if m.streamer.live = some h then none else m.streamer.live := by
      rw [hs', live_finish, hlive]
    rcases (hcond hne).resolve_left hannounced with hne | ⟨hnone, hother⟩
    · exact hne (howed.symm.trans hstopped.2)
    · rw [hstopped.1, if_neg hother] at hlive'
      exact hnone hlive'.symm

/-- The arrival of resume data leaves the timers alone. -/
theorem controls_resumeDataReadyAlertWithData {h : Nat} {u : Unit} (hm : m.streamer.OneTimer)
    (hcond : m.streamer.scheduledTimers ≠ [] → ¬ m.streamer.Stopped)
    (hx : resumeDataReadyAlertWithData h m = .ok u m') : m'.streamer.Controls := by
  obtain ⟨-, hs'⟩ := resumeDataReadyAlertWithData_ok hx
  have htimers : m'.streamer.timers = m.streamer.timers := by
    rw [hs']
    rfl
  have hlive : m'.streamer.live = m.streamer.live := live_resumeDataReadyAlertWithData hx
  have howed : m'.streamer.session.outstanding = m.streamer.session.outstanding := by
    rw [hs']
    rfl
  refine controls_of_running hm htimers fun hne hstopped => ?_
  exact hcond hne ⟨hlive.symm.trans hstopped.1, howed.symm.trans hstopped.2⟩

/-- **One alert.** -/
theorem controls_dispatchAlert {d : Env × Alert} {u : Unit} (hm : m.streamer.Controls)
    (hcond : m.streamer.session.canDeliver d.2 = true → AlertControls m d)
    (hx : dispatchAlert d.1 d.2 m = .ok u m') : m'.streamer.Controls := by
  obtain ⟨env, a⟩ := d
  rw [dispatchAlert_apply] at hx
  by_cases hd : m.streamer.session.canDeliver a = true
  · rw [if_pos hd] at hx
    have hone : (m.streamer.delivers a).OneTimer := ⟨hm.one.atMostOne, hm.one.current⟩
    have hcond := hcond hd
    cases a with
    | metadataReceived h => exact controls_metadataReceivedAlert (by exact hone) (by exact hcond) hx
    | pieceFinished h piece => exact controls_pieceFinishedAlert (by exact hone) (by exact hcond) hx
    | torrentFinished h => exact controls_torrentFinishedAlert (by exact hone) (by exact hcond) hx
    | saveResumeData h =>
        obtain ⟨st, m₁, h₁, k₁⟩ := bind_eq_ok.mp hx
        obtain ⟨-, -, rfl⟩ := statusOf_eq_ok.mp h₁
        exact controls_resumeDataReadyAlertWithData (by exact hone) (by exact hcond) k₁
  · rw [if_neg hd] at hx
    cases hx
    exact hm

/-! ## When a start keeps the timer under control -/

/-- No timer is scheduled when the download of `arg` is started, and where the start fails
libtorrent owes an alert afterwards: one it owed before, or the resume data of a torrent, which
may be the one that the start has added. -/
def StartControls (env : Env) (arg : Text) (directoryName : Option Text) (m : Machine) : Prop :=
  let session := m.streamer.session
  m.streamer.scheduledTimers = [] ∧ match env.addParams? arg directoryName with
    | none => env.StillOwes session
    | some tp => isMagnet arg = false → env.LowSpace (session.handleFor tp) →
        env.StillOwes session ∨ session.holding? tp = none ∧
          env.needSaveResumeData session.nextHandle = true

instance (env : Env) (arg : Text) (directoryName : Option Text) (m : Machine) :
    Decidable (StartControls env arg directoryName m) := by
  unfold StartControls
  cases env.addParams? arg directoryName <;> infer_instance

theorem oneTimer_acquire {s : Streamer} {progress readyToPlay failure : Option BlockId}
    (h : s.scheduledTimers = []) : (s.acquire progress readyToPlay failure).OneTimer := by
  have htimers : (s.acquire progress readyToPlay failure).scheduledTimers = [s.nextTimer] := by
    show s.scheduledTimers ++ [s.nextTimer] = [s.nextTimer]
    rw [h, List.nil_append]
  refine ⟨by rw [htimers]; exact Nat.le_refl 1, fun t ht => ?_⟩
  rw [htimers, List.mem_singleton] at ht
  rw [ht]
  rfl

/-- What `add_torrent` leaves behind: the handle it answers is the one of the live run. -/
theorem Adds.live {tp : AddTorrentParams} {s s' : Streamer} {h : Nat} (hadds : Adds tp s h s') :
    s'.live = some h ∧ h = s.session.handleFor tp ∧
      s'.session.outstanding = s.session.outstanding ∧
      ∀ t ∈ s.session.torrents, t ∈ s'.session.torrents := by
  cases hadds with
  | found t ht =>
      have hholding : s.session.holding? tp = some t := ht
      refine ⟨?_, by rw [Session.handleFor, hholding], rfl, fun _ ht => ht⟩
      rw [Streamer.live, Streamer.log, List.foldl_append]
      rfl
  | added order hnew =>
      have hholding : s.session.holding? tp = none := hnew
      refine ⟨?_, by rw [Session.handleFor, hholding], rfl,
        fun _ ht => Session.mem_insert.mpr (Or.inr ht)⟩
      rw [Streamer.live, Streamer.withSession, List.foldl_append]
      rfl

theorem outstanding_ne_nil_of_failStart {env : Env} {failure : Option BlockId} {error : NSError}
    {u : Unit} (hx : failStart env failure error m = .ok u m')
    (howes : env.StillOwes m.streamer.session) : m'.streamer.session.outstanding ≠ [] := by
  obtain ⟨m₁, -, hs₁, hcancel⟩ := failStart_ok hx
  refine outstanding_ne_nil_of_stillOwes hcancel ?_
  rw [hs₁]
  exact howes

/-- From `add_torrent` on the streamer does not stop, unless it finds no room and nothing is
owed. -/
theorem not_stopped_addAndResume {env : Env} {arg : Text} {failure : Option BlockId}
    {tp : AddTorrentParams} {u : Unit} (hs : m.streamer.Sound)
    (hpath : m.streamer.savePath.isSome)
    (hinfo : isMagnet arg = false → ∃ md, tp.info = some md)
    (hcond : isMagnet arg = false → env.LowSpace (m.streamer.session.handleFor tp) →
      env.StillOwes m.streamer.session ∨ m.streamer.session.holding? tp = none ∧
        env.needSaveResumeData m.streamer.session.nextHandle = true)
    (hx : addAndResume env arg failure tp m = .ok u m') : ¬ m'.streamer.Stopped := by
  obtain ⟨h, s₁, m₂, m₃, hadds, -, -, hs₂, hmeta, -, hs'⟩ := addAndResume_ok hx
  have hsound₁ := hadds.sound_added hs hpath
  obtain ⟨t', ht', horigin⟩ := hadds.find? hs hpath
  obtain ⟨hlive, rfl, howed, hkept⟩ := hadds.live
  have hframes₂ : s₁.Frames m₂.streamer := by
    rw [hs₂]
    exact .sent env _ addCommands s₁
  have hframes' : m₃.streamer.Frames m'.streamer := by
    rw [hs']
    exact frames_resumes m₃.streamer
  have howed' : m'.streamer.session.outstanding = m₃.streamer.session.outstanding := by
    rw [hs']
    rfl
  rw [hframes'.stopped howed']
  rintro ⟨hnone, hnil⟩
  rcases hmeta with ⟨-, rfl⟩ | ⟨hfile, hmeta⟩
  · -- a link is live from here on
    rw [hframes₂.live_eq, hlive] at hnone
    cases hnone
  obtain ⟨-, -, ⟨hlow, m₄, -, hs₄, hcancel⟩ | ⟨-, m₄, -, hs₄, hselect⟩⟩ :=
    metadataReceivedAlert_ok hmeta
  · -- the cancel still asks for the resume data of a torrent, or something was owed before
    refine outstanding_ne_nil_of_stillOwes hcancel ?_ hnil
    have hsession : m₄.streamer.session = m₂.streamer.session := by
      rw [hs₄]
      rfl
    have howes : ∀ t ∈ s₁.session.torrents, t.info.isSome = true →
        env.needSaveResumeData t.handle = true → env.StillOwes m₄.streamer.session := by
      intro t ht hknown hneed
      have hmem : t.handle ∈ m₂.streamer.session.torrents.map (·.handle) := by
        rw [hframes₂.handles]
        exact List.mem_map_of_mem ht
      obtain ⟨t₂, ht₂, hhandle⟩ := List.mem_map.mp hmem
      refine Or.inr ⟨t₂, by rwa [hsession], ?_⟩
      rw [Env.owesResumeData, hhandle, hneed, hsession, hs₂, hasMetadata_sent,
        hsound₁.hasMetadata_of_mem ht, hknown]
      rfl
    -- either it was owed before, or one of the torrents there has resume data to save
    rcases hcond hfile hlow with (hne | ⟨t, ht, howes'⟩) | ⟨hnew, hneed⟩
    · refine Or.inl ?_
      rw [hsession, hs₂]
      exact fun hnil => hne (howed.symm.trans hnil)
    · rw [Env.owesResumeData, Bool.and_eq_true, hs.hasMetadata_of_mem ht] at howes'
      exact howes t (hkept t ht) howes'.2 howes'.1
    · -- the torrent that was added has the metadata of the file
      rcases horigin with hheld | ⟨-, rfl⟩
      · rw [hnew] at hheld
        cases hheld
      obtain ⟨md, hmd⟩ := hinfo hfile
      refine howes _ (Session.find?_mem ht') ?_ ?_
      · rw [AddTorrentParams.torrent_info, hmd]
        rfl
      · rw [AddTorrentParams.torrent_handle, Session.handleFor, hnew]
        exact hneed
  -- with room for it the torrent is live after its file is selected
  · have hframes₃ := frames_selectFile hselect
    have hlive₄ : m₄.streamer.live = m₂.streamer.live := by
      rw [hs₄]
      rfl
    rw [hframes₃.live_eq, hlive₄, hframes₂.live_eq, hlive] at hnone
    cases hnone

theorem controls_start {env : Env} {arg : Text} {directoryName : Option Text}
    {progress readyToPlay failure : Option BlockId} {u : Unit} (hs : m.streamer.Sound)
    (hcond : StartControls env arg directoryName m)
    (hx : startStreamingFromFileInDirectory env arg directoryName progress readyToPlay failure m
      = .ok u m') : m'.streamer.Controls := by
  obtain ⟨hnil, hcond⟩ := hcond
  -- the start schedules its own timer, so it must not have stopped when it returns
  refine controls_of_running (oneTimer_acquire hnil) (timers_of_resources (resources_start hx))
    fun _ hstopped => ?_
  rcases startStreamingFromFileInDirectory_ok hx with ⟨hfile, hmissing, error, hfail⟩ |
    ⟨tp, md5, m₁, hloads, hclosed, error, path?, m₂, -, hs₂, -, hfail⟩ |
    ⟨tp, md5, m₁, hloads, path, m₂, hopened, -, hs₂, hadd⟩
  · rw [addParams?_eq_none (params?_missing hfile hmissing)] at hcond
    exact outstanding_ne_nil_of_failStart hfail hcond hstopped.2
  · rw [hloads.addParams?, hclosed] at hcond
    refine outstanding_ne_nil_of_failStart hfail ?_ hstopped.2
    rw [hs₂]
    show env.StillOwes m₁.streamer.session
    rw [hloads.session]
    exact hcond
  · rw [hloads.addParams?, hopened] at hcond
    have hsession : m₂.streamer.session = m.streamer.session := by
      rw [hs₂]
      exact hloads.session
    have hpath : m₂.streamer.savePath.isSome := by
      rw [hs₂]
      rfl
    refine not_stopped_addAndResume (hs.of_session hsession hpath) hpath
      (fun hfile => (hloads.info hfile).2) ?_ hadd hstopped
    rw [hsession]
    exact hcond

/-! ## Runs -/

/-- What each event has to find so that the timer stays under control. -/
def TimerControls (m : Machine) : Event → Prop
  | .start env arg _ _ _ => StartControls env arg none m
  | .startMulti env arg _ _ _ _ => StartControls env arg none m
  | .cancel env deleteData => deleteData = false → m.streamer.scheduledTimers ≠ [] →
      env.StillOwes m.streamer.session
  | e => AlertsMeet AlertControls m e

instance (m : Machine) : ∀ e : Event, Decidable (TimerControls m e)
  | .start env arg _ _ _ => inferInstanceAs (Decidable (StartControls env arg none m))
  | .startMulti env arg _ _ _ _ => inferInstanceAs (Decidable (StartControls env arg none m))
  | .cancel env deleteData => inferInstanceAs (Decidable (deleteData = false →
      m.streamer.scheduledTimers ≠ [] → env.StillOwes m.streamer.session))
  | .alertsLoop batch =>
      inferInstanceAs (Decidable (AlertsMeet AlertControls m (.alertsLoop batch)))
  | .fastForward .. => .isTrue trivial
  | .mainQueue => .isTrue trivial
  | .metadataArrives .. => .isTrue trivial

/-- Deleting the data invalidates the timer. -/
theorem controls_cancel_deleting {env : Env} {u : Unit} (hm : m.streamer.OneTimer)
    (hx : cancelStreamingAndDeleteData env true m = .ok u m') : m'.streamer.Controls := by
  obtain ⟨-, es, -, hs⟩ := cancel_deleting_ok hx
  refine controls_of_nil ?_
  rw [hs]
  exact hm.invalidate

theorem controls_fastForwardLoop {env : Env} {location length : Nat} {hs : List Nat} {r : Bool}
    (hm : m.streamer.Controls) (hx : fastForwardLoop env location length hs m = .ok r m') :
    m'.streamer.Controls := by
  have hround : ∀ (h : Nat) (m₁ m₂ : Machine) (b : Bool), m₁.streamer.Controls →
      fastForwardTorrent env location length h m₁ = .ok b m₂ → m₂.streamer.Controls := by
    intro h m₁ m₂ b hm₁ hx
    have hframes := frames_fastForwardTorrent hx
    obtain ⟨t, md, i, g, es, last, -, -, -, -, hcases⟩ := fastForwardTorrent_ok hx
    -- a round touches neither the timers nor the alerts that are owed
    have hsame : m₂.streamer.timers = m₁.streamer.timers ∧
        m₂.streamer.session.outstanding = m₁.streamer.session.outstanding := by
      rcases hcases with ⟨-, -, hs'⟩ | ⟨-, m₃, -, hs₃, hnext⟩
      · rw [hs']
        exact ⟨rfl, rfl⟩
      · obtain ⟨next, t', ps, -, -, -, -, -, hs'⟩ := prioritizeNextPieces_ok hnext
        rw [hs', hs₃]
        exact ⟨rfl, rfl⟩
    refine controls_of_running hm₁.one hsame.1 fun hne hstopped => ?_
    exact hne (hm₁.stopped ((hframes.stopped hsame.2).mp hstopped))
  induction hs generalizing m with
  | nil =>
      rw [(pure_eq_ok.mp hx).2]
      exact hm
  | cons h hs ih =>
      obtain ⟨b, m₁, h₁, k₁⟩ := bind_eq_ok.mp hx
      have hm₁ := hround h m m₁ b hm h₁
      rcases ite_eq_ok.mp k₁ with ⟨-, k₂⟩ | ⟨-, k₂⟩
      · rw [(pure_eq_ok.mp k₂).2]
        exact hm₁
      · exact ih hm₁ k₂

/-- **The step lemma.** -/
theorem controls_step {e : Event} {u : Unit} (hs : m.streamer.Sound) (hm : m.streamer.Controls)
    (hcond : TimerControls m e) (hx : step e m = .ok u m') : m'.streamer.Controls := by
  cases e with
  | start env arg progress readyToPlay failure => exact controls_start hs hcond hx
  | startMulti env arg progress readyToPlay failure callback =>
      obtain ⟨m₁, -, hs₁, hstart⟩ := startMulti_ok hx
      refine controls_start ?_ ?_ hstart
      · rw [hs₁]
        exact hs.of_eq rfl rfl
      · rw [StartControls, hs₁]
        exact hcond
  | cancel env deleteData =>
      cases deleteData with
      | false => exact controls_cancel_of_stillOwes hm.one (hcond rfl) hx
      | true => exact controls_cancel_deleting hm.one hx
  | alertsLoop batch =>
      rcases alertsLoop_ok hx with ⟨hactive, hbatch⟩ | ⟨-, rfl⟩
      · have hdispatch : ∀ (d : Env × Alert) (m₁ m₂ : Machine), m₁.streamer.Controls →
            (m₁.streamer.session.canDeliver d.2 = true → AlertControls m₁ d) →
            dispatchAlert d.1 d.2 m₁ = .ok () m₂ → m₂.streamer.Controls :=
          fun d m₁ m₂ hm₁ hd hx => controls_dispatchAlert hm₁ hd hx
        exact run_of_eachBefore hdispatch hm (hcond hactive) hbatch
      · exact hm
  | fastForward env location length =>
      obtain ⟨r, hloop⟩ := fastForward_ok hx
      exact controls_fastForwardLoop hm hloop
  | mainQueue =>
      -- the block of the queue changes neither the timers nor what is owed
      have hframes := frames_runMainQueue hx
      have hsame : m'.streamer.timers = m.streamer.timers ∧
          m'.streamer.session.outstanding = m.streamer.session.outstanding := by
        obtain ⟨-, ⟨-, hs'⟩ | ⟨b, rest, -, hs'⟩⟩ := runMainQueue_ok hx
        · rw [hs']
          exact ⟨rfl, rfl⟩
        · rw [hs']
          exact ⟨rfl, rfl⟩
      refine controls_of_running hm.one hsame.1 fun hne hstopped => ?_
      exact hne (hm.stopped ((hframes.stopped hsame.2).mp hstopped))
  | metadataArrives h md =>
      have hframes := frames_metadataArrives h md m.streamer
      simp only [step, modifies_eq_ok] at hx
      rw [hx]
      refine controls_of_running hm.one rfl fun hne hstopped => ?_
      -- the arrival can only add an alert to what is owed
      refine hne (hm.stopped ⟨hframes.live_eq.symm.trans hstopped.1, ?_⟩)
      have hnil : (m.streamer.session.metadataArrives h md).outstanding = [] := hstopped.2
      rcases Session.metadataArrives_cases m.streamer.session h md with heq | ⟨t, -, -, heq⟩
      · rwa [heq] at hnil
      · rw [heq] at hnil
        exact absurd hnil (List.append_ne_nil_of_right_ne_nil _ (by simp))

/-- **At most one timer.** In every run of a streamer whose steps all find what they have to,
at most one timer is scheduled in every state, and none once the streamer has stopped. -/
theorem timed_run {n : Nat} {es : List Event}
    (hcond : EachBefore step TimerControls es (Machine.init n))
    (hrun : run es (Machine.init n) = .ok () m) : m.streamer.Timed := by
  have hstep : ∀ (e : Event) (m₁ m₂ : Machine), m₁.streamer.Sound ∧ m₁.streamer.Controls →
      TimerControls m₁ e → step e m₁ = .ok () m₂ →
      m₂.streamer.Sound ∧ m₂.streamer.Controls := by
    rintro e m₁ m₂ ⟨hs, hm₁⟩ hcond hx
    exact ⟨sound_step hs hx, controls_step hs hm₁ hcond hx⟩
  exact (run_of_eachBefore hstep ⟨sound_init n, controls_of_nil rfl⟩ hcond hrun).2.timed

/-- A torrent is started, cancelled, and started again. -/
def restart (deleteData : Bool) : List Event :=
  let env := { Env.calm (Metadata.films 1 40 []) fun _ => false with
    needSaveResumeData := fun _ => false }
  [.start env "a.torrent".toList none none none, .cancel env deleteData,
    .start env "a.torrent".toList none none none]

/-- Without deletion the timer of the first start stays, and the second start adds its own. -/
theorem not_timed_restart :
    ¬ ∀ (n : Nat) (es : List Event) (m : Machine), run es (Machine.init n) = .ok () m →
      m.streamer.Timed := by
  intro h
  have hfinal : (finalState (restart false)).map (fun m => m.streamer.scheduledTimers) =
      some [0, 1] := by decide +kernel
  obtain ⟨m, hm, hmap⟩ := Option.map_eq_some_iff.mp hfinal
  obtain ⟨n, es, hrun⟩ := reachable_of_finalState hm
  have hone := (h n es m hrun).atMostOne
  rw [hmap] at hone
  exact absurd hone (by decide)

/-- When the data is deleted the timer goes with it. -/
theorem timed_restartAfterDelete :
    ∃ m, run (restart true) (Machine.init 0) = .ok () m ∧ m.streamer.Timed := by
  have hreturns : (run (restart true) (Machine.init 0)) matches .ok _ _ := by decide +kernel
  cases hrun : run (restart true) (Machine.init 0) with
  | ok u m => exact ⟨m, rfl, timed_run (by decide +kernel) hrun⟩
  | error fault m =>
      rw [hrun] at hreturns
      cases hreturns

end BtDownloader
