import BtDownloader.Client.Reachable

set_option autoImplicit false

/-! # Cancelled runs and live runs

A run of a streamer is live from the start that added its torrent until it is cancelled or
finished. A cancel that keeps the data leaves the torrents in the session and the alerts
loop running, until the resume data arrives; the alert that brings the data names no run and
tears down whatever the session holds then.

* `staysCancelled_iff`: which cancels leave the streamer idle, whatever alerts follow.
* `alive_of_apart`: in which runs a live run keeps its torrent and its alerts loop.
-/

namespace BtDownloader

open Program

variable {m m' : Machine}

/-! ## The live run -/

/-- The torrent of the live run after an effect. -/
def Effect.live (l : Option Nat) : Effect → Option Nat
  | .added h => some h
  | .found h => some h
  | .cancelled => none
  | .finished h => if l = some h then none else l
  | _ => l

/-- The torrent of the live run: of the last start, when it was neither cancelled nor
finished. -/
def Streamer.live (s : Streamer) : Option Nat := s.effects.foldl Effect.live none

/-- The effect neither starts nor ends a run. -/
def Effect.IsNeutral : Effect → Prop
  | .added _ => False
  | .found _ => False
  | .cancelled => False
  | .finished _ => False
  | _ => True

theorem foldl_live_neutral {es : List Effect} (h : ∀ e ∈ es, e.IsNeutral) (l : Option Nat) :
    es.foldl Effect.live l = l := by
  induction es generalizing l with
  | nil => rfl
  | cons e es ih =>
      rw [List.foldl_cons, ih fun e' he' => h e' (by simp [he'])]
      have he := h e (by simp)
      cases e <;> first | rfl | exact he.elim

/-- From `s` to `s'` the session keeps its torrents, and no run starts or ends. -/
structure Streamer.Frames (s s' : Streamer) : Prop where
  handles : s'.session.torrents.map (·.handle) = s.session.torrents.map (·.handle)
  savePath : s'.savePath = s.savePath
  audioPlaying : s'.audioPlaying = s.audioPlaying
  alertsLoopActive : s'.alertsLoopActive = s.alertsLoopActive
  effects : ∃ es, s'.effects = s.effects ++ es ∧ ∀ e ∈ es, e.IsNeutral

namespace Streamer.Frames

variable {s s' s'' : Streamer}

theorem trans (h : s.Frames s') (h' : s'.Frames s'') : s.Frames s'' where
  handles := h'.handles.trans h.handles
  savePath := h'.savePath.trans h.savePath
  audioPlaying := h'.audioPlaying.trans h.audioPlaying
  alertsLoopActive := h'.alertsLoopActive.trans h.alertsLoopActive
  effects := by
    obtain ⟨es, he, hn⟩ := h.effects
    obtain ⟨es', he', hn'⟩ := h'.effects
    refine ⟨es ++ es', by rw [he', he, List.append_assoc], fun e hmem => ?_⟩
    exact (List.mem_append.mp hmem).elim (hn e) (hn' e)

theorem log {es : List Effect} (h : ∀ e ∈ es, e.IsNeutral) (s : Streamer) :
    s.Frames (s.log es) :=
  ⟨rfl, rfl, rfl, rfl, es, rfl, h⟩

theorem sent (env : Env) (h : Nat) (cs : List TorrentCommand) (s : Streamer) :
    s.Frames (s.sent env h cs) where
  handles := handles_sent env h cs s
  savePath := rfl
  audioPlaying := rfl
  alertsLoopActive := rfl
  effects := by
    refine ⟨cs.map (.command h), rfl, fun e he => ?_⟩
    obtain ⟨c, -, rfl⟩ := List.mem_map.mp he
    trivial

/-- The fields that `Frames` does not mention may change. -/
theorem of_eq (h : s.Frames s') (hsession : s''.session = s'.session)
    (hpath : s''.savePath = s'.savePath) (haudio : s''.audioPlaying = s'.audioPlaying)
    (hloop : s''.alertsLoopActive = s'.alertsLoopActive) (heffects : s''.effects = s'.effects) :
    s.Frames s'' where
  handles := by rw [hsession]; exact h.handles
  savePath := hpath.trans h.savePath
  audioPlaying := haudio.trans h.audioPlaying
  alertsLoopActive := hloop.trans h.alertsLoopActive
  effects := by rw [heffects]; exact h.effects

theorem refl (s : Streamer) : s.Frames s :=
  ⟨rfl, rfl, rfl, rfl, [], (List.append_nil _).symm, by simp⟩

theorem live_eq (h : s.Frames s') : s'.live = s.live := by
  obtain ⟨es, he, hn⟩ := h.effects
  rw [Streamer.live, he, List.foldl_append, foldl_live_neutral hn]
  rfl

end Streamer.Frames

/-- The end of every start. -/
theorem frames_resumes (s : Streamer) :
    s.Frames (s.resumes.dispatch (.networkActivityIndicator true)) :=
  ⟨rfl, rfl, rfl, rfl, [.dispatched (.networkActivityIndicator true)], rfl,
    by simp [Effect.IsNeutral]⟩

/-- From `s` to `s'` the live run goes on, or there is none any more. -/
def Streamer.Carries (s s' : Streamer) : Prop := s.Frames s' ∨ s'.live = none

theorem Streamer.Carries.trans {s s' s'' : Streamer} (h : s.Carries s') (h' : s'.Carries s'') :
    s.Carries s'' := by
  rcases h' with hframes' | hnone
  · rcases h with hframes | hnone
    · exact Or.inl (hframes.trans hframes')
    · exact Or.inr (hframes'.live_eq.trans hnone)
  · exact Or.inr hnone

/-! ## What the handlers carry on -/

theorem Selects.neutral {g g' : Globals} {block? : Option SelectionBlock}
    {ti? : Option TorrentInfo} {i : Int} {es : List Effect} (h : Selects g block? ti? i g' es) :
    ∀ e ∈ es, e.IsNeutral := by
  cases h <;> simp [Effect.IsNeutral]

theorem Chooses.neutral {g g' : Globals} {block? : Option SelectionBlock}
    {ti? : Option TorrentInfo} {i : Int} {es : List Effect} (h : Chooses g block? ti? i g' es) :
    ∀ e ∈ es, e.IsNeutral := by
  cases h with
  | current => simp
  | selects _ h => exact h.neutral

theorem live_cancelled (session : Session) (es : List Effect) (s : Streamer) :
    (s.cancelled session es).live = none := by
  have heffects : (s.cancelled session es).effects = s.effects ++ es ++ [.cancelled] ++
      [.dispatched (.networkActivityIndicator false)] := rfl
  rw [Streamer.live, heffects, List.foldl_append, List.foldl_append]
  rfl

theorem live_cancel {env : Env} {deleteData : Bool} {u : Unit}
    (hx : cancelStreamingAndDeleteData env deleteData m = .ok u m') : m'.streamer.live = none := by
  cases deleteData with
  | false =>
      obtain ⟨-, session, es, -, hs, -⟩ := cancel_keeping_ok hx
      rw [hs]
      exact live_cancelled session es _
  | true =>
      obtain ⟨-, es, -, hs⟩ := cancel_deleting_ok hx
      rw [hs]
      exact live_cancelled _ es m.streamer

theorem frames_prioritizeNextPieces {env : Env} {h : Nat} {u : Unit}
    (hx : prioritizeNextPieces env h m = .ok u m') : m.streamer.Frames m'.streamer := by
  obtain ⟨next, t, ps, -, -, -, -, -, hs⟩ := prioritizeNextPieces_ok hx
  rw [hs]
  exact (Streamer.Frames.sent env h _ _).of_eq rfl rfl rfl rfl rfl

theorem frames_selectFile {env : Env} {h : Nat} {u : Unit}
    (hx : selectFile env h m = .ok u m') : m.streamer.Frames m'.streamer := by
  obtain ⟨t, md, i, g, es, fe, -, -, hselects, -, -, hs⟩ := selectFile_ok hx
  rw [hs]
  exact ((Streamer.Frames.log hselects.neutral _).trans (Streamer.Frames.sent env h _ _)).of_eq
    rfl rfl rfl rfl rfl

theorem carries_metadataReceivedAlert {env : Env} {h : Nat} {u : Unit}
    (hx : metadataReceivedAlert env h m = .ok u m') : m.streamer.Carries m'.streamer := by
  obtain ⟨-, -, ⟨-, m₁, -, -, hcancel⟩ | ⟨-, m₁, -, hs₁, hselect⟩⟩ := metadataReceivedAlert_ok hx
  · exact Or.inr (live_cancel hcancel)
  · refine Or.inl (Streamer.Frames.trans ?_ (frames_selectFile hselect))
    rw [hs₁]
    exact (Streamer.Frames.refl _).of_eq rfl rfl rfl rfl rfl

theorem frames_progress (st : TorrentStatus) (told : PTTorrentStatus) (s : Streamer) :
    s.Frames (s.progress st told) :=
  ⟨rfl, rfl, rfl, rfl, [.dispatched .progress], rfl, by simp [Effect.IsNeutral]⟩

theorem carries_pieceFinishedAlert {env : Env} {h : Nat} {u : Unit}
    (hx : pieceFinishedAlert env h m = .ok u m') : m.streamer.Carries m'.streamer := by
  obtain ⟨-, n, m₁, -, hs₁, hcases⟩ := pieceFinishedAlert_ok hx
  have hframes₁ : m.streamer.Frames m₁.streamer := by
    rw [hs₁]
    exact frames_progress _ _ _
  rcases hcases with ⟨-, -, hs'⟩ | ⟨-, m₂, hnext, hagain⟩
  · rw [hs']
    exact Or.inl hframes₁
  · refine Streamer.Carries.trans ?_ (Or.inl (frames_prioritizeNextPieces hnext))
    rcases hagain with ⟨-, -, hs₂⟩ | ⟨-, m₃, -, hs₃, hmeta⟩
    · rw [hs₂]
      exact Or.inl hframes₁
    · refine Streamer.Carries.trans (Or.inl ?_) (carries_metadataReceivedAlert hmeta)
      rwa [hs₃]

theorem frames_fastForwardTorrent {env : Env} {location length h : Nat} {r : Bool}
    (hx : fastForwardTorrent env location length h m = .ok r m') :
    m.streamer.Frames m'.streamer := by
  obtain ⟨t, md, i, g, es, last, -, -, hchooses, -, hcases⟩ := fastForwardTorrent_ok hx
  have hseeks : ∀ a b : Int, m.streamer.Frames (m.streamer.seeks h i a b es) := by
    intro a b
    refine (Streamer.Frames.log ?_ m.streamer).of_eq rfl rfl rfl rfl rfl
    intro e he
    rcases List.mem_append.mp he with he | he
    · exact hchooses.neutral e he
    · obtain rfl : e = .mappedRange h i := by simpa using he
      trivial
  rcases hcases with ⟨-, -, hs'⟩ | ⟨-, m₁, -, hs₁, hnext⟩
  · rw [hs']
    exact hseeks _ _
  · refine Streamer.Frames.trans ?_ (frames_prioritizeNextPieces hnext)
    rw [hs₁]
    exact (hseeks (md.val.mapFile i.toNat location length).piece last).of_eq rfl rfl rfl rfl rfl

theorem frames_fastForwardLoop {env : Env} {location length : Nat} {hs : List Nat} {r : Bool}
    (hx : fastForwardLoop env location length hs m = .ok r m') :
    m.streamer.Frames m'.streamer := by
  induction hs generalizing m with
  | nil =>
      obtain ⟨-, rfl⟩ := pure_eq_ok.mp hx
      exact Streamer.Frames.refl _
  | cons h hs ih =>
      obtain ⟨b, m₁, h₁, k₁⟩ := bind_eq_ok.mp hx
      have hframes := frames_fastForwardTorrent h₁
      rcases ite_eq_ok.mp k₁ with ⟨-, k₂⟩ | ⟨-, k₂⟩
      · obtain ⟨-, rfl⟩ := pure_eq_ok.mp k₂
        exact hframes
      · exact hframes.trans (ih k₂)

theorem frames_runMainQueue {u : Unit} (hx : runMainQueue m = .ok u m') :
    m.streamer.Frames m'.streamer := by
  obtain ⟨-, ⟨-, hs'⟩ | ⟨b, rest, -, hs'⟩⟩ := runMainQueue_ok hx
  · rw [hs']
    exact Streamer.Frames.refl _
  · rw [hs']
    have hneutral : ∀ e ∈ m.streamer.mainEffects b, e.IsNeutral := by
      intro e he
      cases b with
      | progress =>
          obtain ⟨block, -, rfl⟩ := List.mem_map.mp he
          trivial
      | readyToPlay path =>
          obtain ⟨block, -, rfl⟩ := List.mem_map.mp he
          trivial
      | networkActivityIndicator visible => cases he
    exact ⟨rfl, rfl, rfl, rfl, _, rfl, hneutral⟩

theorem frames_metadataArrives (h : Nat) (md : Metadata) (s : Streamer) :
    s.Frames (s.mapSession (·.metadataArrives h md)) := by
  refine ⟨?_, rfl, rfl, rfl, [], (List.append_nil _).symm, by simp⟩
  show (s.session.metadataArrives h md).torrents.map _ = _
  rcases Session.metadataArrives_cases s.session h md with heq | ⟨t, -, -, heq⟩
  · rw [heq]
  · rw [heq]
    show (s.session.torrents.map _).map _ = _
    rw [List.map_map]
    refine List.map_congr_left fun t _ => ?_
    by_cases ht : t.handle = h
    · simp [ht, Torrent.withMetadata]
    · simp [ht]

/-! ## Live runs keep their torrent -/

/-- The live run, if there is one, has its torrent in the session, its save path, its audio
and its alerts loop. -/
def Streamer.Alive (s : Streamer) : Prop :=
  ∀ h, s.live = some h → h ∈ s.session.torrents.map (·.handle) ∧ s.savePath.isSome ∧
    s.audioPlaying = true ∧ s.alertsLoopActive = true

theorem Streamer.Frames.alive {s s' : Streamer} (h : s.Frames s') (hs : s.Alive) : s'.Alive := by
  intro n hn
  rw [h.live_eq] at hn
  rw [h.handles, h.savePath, h.audioPlaying, h.alertsLoopActive]
  exact hs n hn

theorem alive_of_live_eq_none {s : Streamer} (h : s.live = none) : s.Alive := by
  intro n hn
  rw [h] at hn
  cases hn

theorem Streamer.Carries.alive {s s' : Streamer} (h : s.Carries s') (hs : s.Alive) : s'.Alive :=
  h.elim (fun h => h.alive hs) alive_of_live_eq_none

/-- The alert does not belong to an earlier run than the live one: no resume data arrives
while a run is live, and no other torrent is the first to finish in the live run. -/
def Apart (m : Machine) (a : Alert) : Prop :=
  match a with
  | .saveResumeData _ => m.streamer.live = none
  | .torrentFinished h => m.streamer.live = none ∨ m.streamer.live = some h ∨
      m.streamer.streaming = true ∨ m.streamer.readyToPlayBlock = none
  | _ => True

instance (m : Machine) (a : Alert) : Decidable (Apart m a) := by
  cases a <;> unfold Apart <;> infer_instance

theorem live_finish (h : Nat) (s : Streamer) :
    (s.finish h).live = if s.live = some h then none else s.live := by
  have heffects : (s.finish h).effects = s.effects ++ [.dispatched .progress,
      .dispatched (.networkActivityIndicator false), .command h (.pause true), .removed h] ++
      [.finished h] := by
    simp [Streamer.finish, Streamer.progress, Streamer.dispatch]
  have hneutral : ∀ e ∈ ([.dispatched .progress, .dispatched (.networkActivityIndicator false),
      .command h (.pause true), .removed h] : List Effect), e.IsNeutral := by
    simp [Effect.IsNeutral]
  rw [Streamer.live, heffects, List.foldl_append, List.foldl_append, foldl_live_neutral hneutral]
  rfl

/-- What `processTorrent` keeps of a run: everything but the alerts loop, and that too
unless the file is reported as ready. -/
theorem processTorrent_keeps {env : Env} {h : Nat} {u : Unit}
    (hx : processTorrent env h m = .ok u m') :
    m'.streamer.live = m.streamer.live ∧
      m'.streamer.session.torrents = m.streamer.session.torrents ∧
      m'.streamer.savePath = m.streamer.savePath ∧
      m'.streamer.audioPlaying = m.streamer.audioPlaying ∧
      m'.streamer.alertsLoopActive =
        (m.streamer.alertsLoopActive &&
          (m.streamer.streaming || m.streamer.readyToPlayBlock.isNone)) := by
  rcases processTorrent_ok hx with ⟨hstreaming, rfl⟩ |
    ⟨hstreaming, t, md, fe, i, es, -, -, -, hchooses, hs⟩
  · simp [hstreaming]
  · have hframes := Streamer.Frames.log hchooses.neutral m.streamer
    -- only with a block to call is the loop stopped
    cases hblock : m.streamer.readyToPlayBlock with
    | none =>
        rw [hblock] at hs
        have hs' : m'.streamer = (m.streamer.log es).streams (env.status h) fe := hs
        rw [hs']
        exact ⟨hframes.live_eq, rfl, rfl, rfl, by simp [Streamer.streams, Streamer.log]⟩
    | some block =>
        rw [hblock] at hs
        have hs' : m'.streamer = ((m.streamer.log es).streams (env.status h) fe).ready := hs
        rw [hs']
        refine ⟨?_, rfl, rfl, rfl, by simp [Streamer.ready, Streamer.dispatch, hstreaming]⟩
        have heffects : (((m.streamer.log es).streams (env.status h) fe).ready).effects =
            m.streamer.effects ++ es ++ [.dispatched (.readyToPlay
              (m.streamer.savePath.map fun path => appendPathComponent path fe.path))] := rfl
        rw [Streamer.live, heffects, List.foldl_append, List.foldl_append,
          foldl_live_neutral hchooses.neutral]
        rfl

/-- A torrent that finishes leaves the live run alone exactly when it is the live run's, or
the run has reported its file already. -/
theorem alive_torrentFinishedAlert_iff {env : Env} {h : Nat} {u : Unit}
    (hs : m.streamer.Alive) (hx : torrentFinishedAlert env h m = .ok u m') :
    m'.streamer.Alive ↔ Apart m (.torrentFinished h) := by
  obtain ⟨-, m₁, hprocess, -, hs'⟩ := torrentFinishedAlert_ok hx
  obtain ⟨hlive, htorrents, hpath, haudio, hloop⟩ := processTorrent_keeps hprocess
  have hlive' : m'.streamer.live = if m.streamer.live = some h then none else m.streamer.live := by
    rw [hs', live_finish, hlive]
  have hloop' : m'.streamer.alertsLoopActive = m₁.streamer.alertsLoopActive := by rw [hs']; rfl
  constructor
  · intro halive
    cases hl : m.streamer.live with
    | none => exact Or.inl hl
    | some n =>
        by_cases hn : n = h
        · exact Or.inr (Or.inl (by rw [hl, hn]))
        · -- the live run is another one: its loop must not have been stopped
          have hactive := (halive n (by rw [hlive', hl, if_neg (by simpa using hn)])).2.2.2
          rw [hloop', hloop] at hactive
          have := (Bool.and_eq_true_iff.mp hactive).2
          rcases Bool.or_eq_true_iff.mp this with h | h
          · exact Or.inr (Or.inr (Or.inl h))
          · exact Or.inr (Or.inr (Or.inr (Option.isNone_iff_eq_none.mp h)))
  -- the run that is still live is not the one that finished, so it keeps its torrent
  · intro hapart n hn
    rw [hlive'] at hn
    by_cases hl : m.streamer.live = some h
    · rw [if_pos hl] at hn
      cases hn
    rw [if_neg hl] at hn
    obtain ⟨hmem, hsome, hplaying, hactive⟩ := hs n hn
    have hnh : n ≠ h := fun heq => hl (by rw [hn, heq])
    refine ⟨?_, ?_, ?_, ?_⟩
    · have hfilter : m'.streamer.session.torrents =
          m.streamer.session.torrents.filter (·.handle ≠ h) := by
        rw [hs', ← htorrents]
        rfl
      obtain ⟨t, ht, rfl⟩ := List.mem_map.mp hmem
      rw [hfilter]
      exact List.mem_map_of_mem (List.mem_filter.mpr ⟨ht, by simpa using hnh⟩)
    · rw [hs']
      exact hpath ▸ hsome
    · rw [hs']
      exact haudio.trans hplaying
    · rw [hloop', hloop, hactive, Bool.true_and]
      rcases hapart with h₀ | h₀ | h₀ | h₀
      · rw [h₀] at hn
        cases hn
      · exact absurd h₀ hl
      · rw [h₀]
        rfl
      · rw [h₀, Bool.or_comm]
        rfl

theorem live_resumeDataReadyAlertWithData {h : Nat} {u : Unit}
    (hx : resumeDataReadyAlertWithData h m = .ok u m') : m'.streamer.live = m.streamer.live := by
  obtain ⟨-, hs'⟩ := resumeDataReadyAlertWithData_ok hx
  rw [hs', Streamer.live]
  show List.foldl _ _ (m.streamer.effects ++ (_ ++ _)) = _
  rw [List.foldl_append, foldl_live_neutral]
  · rfl
  · intro e he
    rcases List.mem_append.mp he with he | he
    · obtain ⟨t, -, rfl⟩ := List.mem_map.mp he
      trivial
    · obtain rfl : e = .wroteResumeData h := by simpa using he
      trivial

/-- An alert starts no run. -/
theorem live_dispatchAlert {d : Env × Alert} {u : Unit} (hlive : m.streamer.live = none)
    (hx : dispatchAlert d.1 d.2 m = .ok u m') : m'.streamer.live = none := by
  obtain ⟨env, a⟩ := d
  rw [dispatchAlert_apply] at hx
  split at hx
  · have hdelivers : (m.streamer.delivers a).live = none := hlive
    have hcarried : ∀ {s s' : Streamer}, s.live = none → s.Carries s' → s'.live = none := by
      intro s s' hs hcarries
      exact hcarries.elim (fun h => h.live_eq.trans hs) id
    cases a with
    | metadataReceived h => exact hcarried hdelivers (carries_metadataReceivedAlert hx)
    | pieceFinished h piece => exact hcarried hdelivers (carries_pieceFinishedAlert hx)
    | torrentFinished h =>
        obtain ⟨-, m₁, hprocess, -, hs'⟩ := torrentFinishedAlert_ok hx
        have hlive₁ := (processTorrent_keeps hprocess).1.trans hdelivers
        rw [hs', live_finish, hlive₁, if_neg (by simp)]
    | saveResumeData h =>
        obtain ⟨st, m₁, h₁, k₁⟩ := bind_eq_ok.mp hx
        obtain ⟨-, -, rfl⟩ := statusOf_eq_ok.mp h₁
        exact (live_resumeDataReadyAlertWithData k₁).trans hdelivers
  · cases hx
    exact hlive

/-- The resume data tears down the live run, if there is one. -/
theorem alive_resumeDataReadyAlertWithData_iff {h : Nat} {u : Unit}
    (hx : resumeDataReadyAlertWithData h m = .ok u m') :
    m'.streamer.Alive ↔ Apart m (.saveResumeData h) := by
  have hlive := live_resumeDataReadyAlertWithData hx
  obtain ⟨-, hs'⟩ := resumeDataReadyAlertWithData_ok hx
  constructor
  · intro halive
    cases hl : m.streamer.live with
    | none => exact hl
    | some n =>
        have hactive := (halive n (hlive.trans hl)).2.2.2
        rw [hs'] at hactive
        cases hactive
  · intro hapart
    exact alive_of_live_eq_none (hlive.trans hapart)

/-- **One alert.** It leaves the live run alone exactly when it is not of an earlier run. -/
theorem alive_dispatchAlert_iff {env : Env} {a : Alert} {u : Unit} (hs : m.streamer.Alive)
    (hx : dispatchAlert env a m = .ok u m') :
    m'.streamer.Alive ↔ (m.streamer.session.canDeliver a = true → Apart m a) := by
  rw [dispatchAlert_apply] at hx
  by_cases hd : m.streamer.session.canDeliver a = true
  · rw [if_pos hd] at hx
    have hdelivers : (m.streamer.delivers a).Alive := hs
    simp only [hd, true_imp_iff]
    cases a with
    | metadataReceived h =>
        exact iff_of_true ((carries_metadataReceivedAlert hx).alive hdelivers) trivial
    | pieceFinished h piece =>
        exact iff_of_true ((carries_pieceFinishedAlert hx).alive hdelivers) trivial
    | torrentFinished h =>
        have hiff := alive_torrentFinishedAlert_iff (by exact hdelivers) hx
        exact hiff
    | saveResumeData h =>
        obtain ⟨st, m₁, h₁, k₁⟩ := bind_eq_ok.mp hx
        obtain ⟨-, -, rfl⟩ := statusOf_eq_ok.mp h₁
        have hiff := alive_resumeDataReadyAlertWithData_iff k₁
        exact hiff
  · rw [if_neg hd] at hx
    cases hx
    exact iff_of_true hs fun h => absurd h hd

/-- A start that returns leaves a live run with all it needs, or no live run. -/
theorem alive_start {env : Env} {arg : Text} {directoryName : Option Text}
    {progress readyToPlay failure : Option BlockId} {u : Unit}
    (hx : startStreamingFromFileInDirectory env arg directoryName progress readyToPlay failure m
      = .ok u m') : m'.streamer.Alive := by
  -- a start that fails has cancelled: no run is live
  rcases startStreamingFromFileInDirectory_ok hx with ⟨-, -, error, hfail⟩ |
    ⟨_, _, _, hloads, _, error, _, _, _, _, _, hfail⟩ |
    ⟨tp, md5, m₁, hloads, path, m₂, -, -, hs₂, hadd⟩
  · obtain ⟨m₂, -, -, hcancel⟩ := failStart_ok hfail
    exact alive_of_live_eq_none (live_cancel hcancel)
  · obtain ⟨m₂, -, -, hcancel⟩ := failStart_ok hfail
    exact alive_of_live_eq_none (live_cancel hcancel)
  obtain ⟨h, s₁, m₃, m₄, hadds, -, -, hs₃, hmeta, -, hs'⟩ := addAndResume_ok hadd
  obtain ⟨es, hs₁⟩ := hloads.frame
  have hflags : m₂.streamer.audioPlaying = true ∧ m₂.streamer.alertsLoopActive = true := by
    rw [hs₂, hs₁]
    exact ⟨rfl, rfl⟩
  have hpath : m₂.streamer.savePath.isSome := by rw [hs₂]; rfl
  -- the handle of the new run is in the session, added or found
  have halive : s₁.Alive := by
    intro n hn
    cases hadds with
    | found t ht =>
        obtain rfl : t.handle = n := by
          rw [Streamer.live, Streamer.log, List.foldl_append] at hn
          exact Option.some.inj hn
        exact ⟨List.mem_map_of_mem (List.mem_of_find?_eq_some ht), hpath, hflags⟩
    | added order hnew =>
        obtain rfl : m₂.streamer.session.nextHandle = n := by
          rw [Streamer.live, Streamer.withSession, List.foldl_append] at hn
          exact Option.some.inj hn
        refine ⟨?_, hpath, hflags⟩
        refine List.mem_map.mpr ⟨(finalParams env arg path tp).torrent _, ?_,
          AddTorrentParams.torrent_handle _ _⟩
        exact Session.mem_insert.mpr (Or.inl rfl)
  have halive₃ : m₃.streamer.Alive := by
    rw [hs₃]
    exact (Streamer.Frames.sent env h addCommands s₁).alive halive
  have halive₄ : m₄.streamer.Alive := by
    rcases hmeta with ⟨-, rfl⟩ | ⟨-, hmeta⟩
    · exact halive₃
    · exact (carries_metadataReceivedAlert hmeta).alive halive₃
  rw [hs']
  exact (frames_resumes m₄.streamer).alive halive₄

/-- Every alert of the event that libtorrent delivers is apart from the live run. -/
def EventApart (m : Machine) : Event → Prop
  | .alertsLoop batch => m.streamer.alertsLoopActive = true →
      EachBefore (fun d : Env × Alert => dispatchAlert d.1 d.2)
        (fun m d => m.streamer.session.canDeliver d.2 = true → Apart m d.2) batch m
  | _ => True

instance (m : Machine) (e : Event) : Decidable (EventApart m e) := by
  cases e <;> unfold EventApart <;> infer_instance

/-- **The step lemma.** -/
theorem alive_step {e : Event} {u : Unit} (hs : m.streamer.Alive) (hapart : EventApart m e)
    (hx : step e m = .ok u m') : m'.streamer.Alive := by
  cases e with
  | start env arg progress readyToPlay failure => exact alive_start hx
  | startMulti env arg progress readyToPlay failure callback =>
      obtain ⟨m₁, -, -, hstart⟩ := startMulti_ok hx
      exact alive_start hstart
  | cancel env deleteData => exact alive_of_live_eq_none (live_cancel hx)
  | alertsLoop batch =>
      rcases alertsLoop_ok hx with ⟨hactive, hbatch⟩ | ⟨-, rfl⟩
      · have hdispatch : ∀ (d : Env × Alert) (m₁ m₂ : Machine), m₁.streamer.Alive →
            (m₁.streamer.session.canDeliver d.2 = true → Apart m₁ d.2) →
            dispatchAlert d.1 d.2 m₁ = .ok () m₂ → m₂.streamer.Alive :=
          fun d m₁ m₂ hs hd hx => (alive_dispatchAlert_iff hs hx).mpr hd
        exact run_of_eachBefore hdispatch hs (hapart hactive) hbatch
      · exact hs
  | fastForward env location length =>
      obtain ⟨r, hloop⟩ := fastForward_ok hx
      exact (frames_fastForwardLoop hloop).alive hs
  | mainQueue => exact (frames_runMainQueue hx).alive hs
  | metadataArrives h md =>
      simp only [step, modifies_eq_ok] at hx
      rw [hx]
      exact (frames_metadataArrives h md _).alive hs

/-- **No teardown by an earlier run.** In every run of a streamer in which no alert of an
earlier run comes while a run is live, the live run has its torrent, its save path, its
audio and its alerts loop in every state. -/
theorem alive_of_apart {n : Nat} {es : List Event}
    (hapart : EachBefore step EventApart es (Machine.init n))
    (hrun : run es (Machine.init n) = .ok () m) : m.streamer.Alive :=
  run_of_eachBefore (fun _ _ _ hs ha hx => alive_step hs ha hx)
    (alive_of_live_eq_none rfl) hapart hrun

/-- A torrent is started, cancelled and started again; then the resume data that the cancel
asked for arrives. -/
def restartBeforeResumeData : List Event :=
  let env := Env.calm (Metadata.films 1 40 []) fun _ => false
  [.start env "a.torrent".toList none none none, .cancel env false,
    .start env "a.torrent".toList none none none, .alertsLoop [(env, .saveResumeData 0)]]

/-- The second run is live without a torrent. -/
theorem not_alive_restartBeforeResumeData :
    ¬ ∀ (n : Nat) (es : List Event) (m : Machine), run es (Machine.init n) = .ok () m →
      m.streamer.Alive := by
  intro h
  have hfinal : (finalState restartBeforeResumeData).map (fun m =>
      (m.streamer.live, m.streamer.session.torrents.length, m.streamer.alertsLoopActive)) =
      some (some 0, 0, false) := by decide +kernel
  obtain ⟨m, hm, hmap⟩ := Option.map_eq_some_iff.mp hfinal
  simp only [Prod.mk.injEq] at hmap
  obtain ⟨n, es, hrun⟩ := reachable_of_finalState hm
  have hactive := (h n es m hrun 0 hmap.1).2.2.2
  rw [hmap.2.2] at hactive
  cases hactive

/-- When the resume data comes before the second start, the second run goes on. -/
theorem alive_restartAfterResumeData :
    let env := Env.calm (Metadata.films 1 40 []) fun _ => false
    let es : List Event := [.start env "a.torrent".toList none none none, .cancel env false,
      .alertsLoop [(env, .saveResumeData 0)], .start env "a.torrent".toList none none none,
      .alertsLoop [(env, .pieceFinished 1 0)]]
    ∃ m, run es (Machine.init 0) = .ok () m ∧ m.streamer.Alive := by
  intro env es
  have hreturns : (run es (Machine.init 0)) matches .ok _ _ := by decide +kernel
  cases hrun : run es (Machine.init 0) with
  | ok u m => exact ⟨m, rfl, alive_of_apart (by decide +kernel) hrun⟩
  | error fault m =>
      rw [hrun] at hreturns
      cases hreturns

/-! ## After a cancel -/

/-- The idle values: nothing is known of a torrent, and nothing is required of one. -/
structure Streamer.Idle (s : Streamer) : Prop where
  torrentStatus : s.torrentStatus = {}
  fileName : s.fileName = none
  savePath : s.savePath = none
  fileSize : s.requiredSpace = 0
  totalDownloaded : s.totalDownloaded = 0
  requiredPieces : s.requiredPieces = []

/-- The effect sends no priority or deadline command. -/
def Effect.IsCalm : Effect → Prop
  | .command _ c => c.isPriority = false
  | _ => True

/-- What can still happen to a streamer that nobody calls: a pass of the alerts loop, a
block of the main queue, the arrival of metadata. -/
def Event.IsDelivery : Event → Prop
  | .alertsLoop _ => True
  | .mainQueue => True
  | .metadataArrives _ _ => True
  | _ => False

/-- Whatever is still delivered, the streamer is idle and sends no priority or deadline
command. -/
def StaysCancelled (m : Machine) : Prop :=
  ∀ (es : List Event) (m' : Machine), (∀ e ∈ es, e.IsDelivery) → run es m = .ok () m' →
    m'.streamer.Idle ∧
      ∃ new, m'.streamer.effects = m.streamer.effects ++ new ∧ ∀ e ∈ new, e.IsCalm

theorem idle_cancelled (session : Session) (es : List Effect) {s : Streamer}
    (hpath : s.savePath = none) : (s.cancelled session es).Idle :=
  ⟨rfl, rfl, hpath, rfl, rfl, rfl⟩

/-- With no torrent left, a handler does not return: every call on a handle throws. -/
theorem not_handleAlert_of_torrents_nil {env : Env} {a : Alert} {u : Unit}
    (hs : m.streamer.session.torrents = []) : ¬ handleAlert env a m = .ok u m' := by
  intro hx
  have hnone : ∀ h t, m.streamer.session.find? h ≠ some t := by
    intro h t ht
    rw [find?_eq_none hs] at ht
    cases ht
  cases a with
  | metadataReceived h =>
      obtain ⟨-, ⟨t, ht⟩, -⟩ := metadataReceivedAlert_ok hx
      exact hnone h t ht
  | pieceFinished h piece =>
      obtain ⟨⟨t, ht⟩, -⟩ := pieceFinishedAlert_ok hx
      exact hnone h t ht
  | torrentFinished h =>
      obtain ⟨⟨t, ht⟩, -⟩ := torrentFinishedAlert_ok hx
      exact hnone h t ht
  | saveResumeData h =>
      obtain ⟨st, m₁, h₁, -⟩ := bind_eq_ok.mp hx
      obtain ⟨⟨t, ht⟩, -⟩ := statusOf_eq_ok.mp h₁
      exact hnone h t ht

/-- A streamer that is idle and has no torrent. -/
structure Streamer.AtRest (s₀ s : Streamer) : Prop where
  idle : s.Idle
  torrents : s.session.torrents = []
  effects : ∃ new, s.effects = s₀.effects ++ new ∧ ∀ e ∈ new, e.IsCalm

theorem atRest_step {s₀ : Streamer} {e : Event} {u : Unit} (hs : s₀.AtRest m.streamer)
    (he : e.IsDelivery) (hx : step e m = .ok u m') : s₀.AtRest m'.streamer := by
  cases e with
  | alertsLoop batch =>
      rcases alertsLoop_ok hx with ⟨-, hbatch⟩ | ⟨-, rfl⟩
      · -- without torrents an alert that is handled does not return
        have hkeeps : Keeps (fun m : Machine => s₀.AtRest m.streamer)
            (each (fun d : Env × Alert => dispatchAlert d.1 d.2) batch) := by
          refine keeps_each fun d _ m₂ hs₂ _ m₃ hd => ?_
          rw [dispatchAlert_apply] at hd
          split at hd
          · exact absurd hd (not_handleAlert_of_torrents_nil hs₂.torrents)
          · cases hd
            exact hs₂
        exact hkeeps _ hs _ _ hbatch
      · exact hs
  | mainQueue =>
      obtain ⟨-, ⟨-, hs'⟩ | ⟨b, rest, -, hs'⟩⟩ := runMainQueue_ok hx
      · rwa [hs']
      -- a block that is called brings only calm effects
      · obtain ⟨⟨h₁, h₂, h₃, h₄, h₅, h₆⟩, htorrents, new, heffects, hcalm⟩ := hs
        rw [hs']
        refine ⟨⟨h₁, h₂, h₃, h₄, h₅, h₆⟩, htorrents, new ++ m.streamer.mainEffects b, ?_, ?_⟩
        · show m.streamer.effects ++ _ = _
          rw [heffects, List.append_assoc]
        · intro e he
          rcases List.mem_append.mp he with he | he
          · exact hcalm e he
          · cases b with
            | progress =>
                obtain ⟨block, -, rfl⟩ := List.mem_map.mp he
                trivial
            | readyToPlay path =>
                obtain ⟨block, -, rfl⟩ := List.mem_map.mp he
                trivial
            | networkActivityIndicator visible => cases he
  | metadataArrives h md =>
      simp only [step, modifies_eq_ok] at hx
      -- there is no torrent whose metadata could arrive
      have hsession : m.streamer.session.metadataArrives h md = m.streamer.session := by
        rcases Session.metadataArrives_cases m.streamer.session h md with heq | ⟨t, ht, -, -⟩
        · exact heq
        · rw [find?_eq_none hs.torrents] at ht
          cases ht
      rw [hx]
      obtain ⟨⟨h₁, h₂, h₃, h₄, h₅, h₆⟩, htorrents, heffects⟩ := hs
      refine ⟨⟨h₁, h₂, h₃, h₄, h₅, h₆⟩, ?_, heffects⟩
      show (m.streamer.session.metadataArrives h md).torrents = []
      rw [hsession]
      exact htorrents
  | start env arg progress readyToPlay failure => exact he.elim
  | startMulti env arg progress readyToPlay failure callback => exact he.elim
  | cancel env deleteData => exact he.elim
  | fastForward env location length => exact he.elim

theorem staysCancelled_of_atRest (hs : m.streamer.AtRest m.streamer) : StaysCancelled m := by
  intro es m' hes hrun
  have hkeeps : Keeps (fun m' : Machine => m.streamer.AtRest m'.streamer) (run es) :=
    keeps_each fun e he _ hs₁ _ _ hx => atRest_step hs₁ (hes e he) hx
  have hrest := hkeeps _ hs _ _ hrun
  exact ⟨hrest.idle, hrest.effects⟩

/-- **Cancelled stays cancelled exactly after a cancel that deletes the data**, or where there
was no save path, and so no torrent, to begin with. -/
theorem staysCancelled_iff {env : Env} {deleteData : Bool} (hm : Reachable m)
    (hx : cancelStreamingAndDeleteData env deleteData m = .ok () m') :
    StaysCancelled m' ↔ deleteData = true ∨ m.streamer.savePath = none := by
  constructor
  · intro h
    cases deleteData with
    | true => exact Or.inl rfl
    | false =>
        obtain ⟨-, session, es, -, hs', -⟩ := cancel_keeping_ok hx
        -- already the cancelled streamer, before any alert, must have no save path
        have hpath := (h [] m' (by simp) rfl).1.savePath
        rw [hs'] at hpath
        exact Or.inr hpath
  · intro h
    refine staysCancelled_of_atRest ?_
    cases deleteData with
    | true =>
        obtain ⟨-, es, -, hs'⟩ := cancel_deleting_ok hx
        refine ⟨?_, by rw [hs']; rfl, [], (List.append_nil _).symm, by simp⟩
        rw [hs']
        exact ⟨rfl, rfl, rfl, rfl, rfl, rfl⟩
    | false =>
        obtain ⟨-, session, es, -, hs', -, htorrents, -⟩ := cancel_keeping_ok hx
        -- a streamer without a save path has no torrents either
        have hpath : m.streamer.savePath = none := h.resolve_left (by simp)
        refine ⟨by rw [hs']; exact idle_cancelled session es hpath, ?_, [],
          (List.append_nil _).symm, by simp⟩
        rw [hs']
        show session.torrents = []
        rw [htorrents, hm.sound.saved hpath, List.map_nil]

/-- A download is started and cancelled without deleting the data. -/
def startAndCancel (deleteData : Bool) : List Event :=
  let env := Env.calm (Metadata.films 1 40 []) fun _ => false
  [.start env "a.torrent".toList none none none, .cancel env deleteData]

/-- A piece that finishes after the cancel makes the streamer require the first pieces of the
cancelled torrent and raise their priorities. -/
theorem not_staysCancelled_startAndCancel :
    ¬ ∀ (m m' : Machine) (env : Env) (deleteData : Bool), Reachable m →
      cancelStreamingAndDeleteData env deleteData m = .ok () m' → StaysCancelled m' := by
  intro h
  let env := Env.calm (Metadata.films 1 40 []) fun _ => false
  have hfinal : (finalState (startAndCancel false ++
      [.alertsLoop [(env, .pieceFinished 0 0)]])).map (fun m => m.streamer.requiredPieces) =
      some [0] := by decide +kernel
  obtain ⟨m₂, hm₂, hpieces⟩ := Option.map_eq_some_iff.mp hfinal
  have hrun : run (startAndCancel false ++ [.alertsLoop [(env, .pieceFinished 0 0)]])
      (Machine.init 0) = .ok () m₂ := by
    unfold finalState at hm₂
    split at hm₂
    · rename_i m₁ hrun
      cases hm₂
      exact hrun
    · cases hm₂
  obtain ⟨m, h₁, h₂⟩ := each_cons_ok.mp hrun
  obtain ⟨m', h₃, h₄⟩ := each_cons_ok.mp h₂
  have hreach : Reachable m := ⟨0, [_], each_cons_ok.mpr ⟨m, h₁, rfl⟩⟩
  have hidle := (h m m' env false hreach h₃ _ m₂ (by simp [Event.IsDelivery]) h₄).1
  rw [hidle.requiredPieces] at hpieces
  cases hpieces

/-- The same download is cancelled with its data. -/
theorem staysCancelled_startAndDelete :
    ∃ m, run (startAndCancel true) (Machine.init 0) = .ok () m ∧ StaysCancelled m := by
  have hreturns : (run (startAndCancel true) (Machine.init 0)) matches .ok _ _ := by
    decide +kernel
  cases hrun : run (startAndCancel true) (Machine.init 0) with
  | ok u m =>
      obtain ⟨m₁, h₁, h₂⟩ := each_cons_ok.mp hrun
      obtain ⟨m₂, h₃, h₄⟩ := each_cons_ok.mp h₂
      cases h₄
      have hreach : Reachable m₁ := ⟨0, [_], each_cons_ok.mpr ⟨m₁, h₁, rfl⟩⟩
      exact ⟨m, rfl, (staysCancelled_iff hreach h₃).mpr (Or.inl rfl)⟩
  | error fault m =>
      rw [hrun] at hreturns
      cases hreturns

end BtDownloader
