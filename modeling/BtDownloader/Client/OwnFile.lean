import BtDownloader.Client.Announce
import BtDownloader.Client.Choice

set_option autoImplicit false

/-! # The file that is announced

`announcesOnce_of_unannounced` asks of a torrent that finishes that it names the file of the run.
In a run with one chosen file this need not be asked: the file priorities of the run's torrent are
those of the last command about them, and every such command of the run is about the chosen file.

* `announcesOnce_of_startsAnew`: the completion is announced once in the runs with one chosen file.
-/

namespace BtDownloader

open Program

variable {m m' : Machine} {env : Env} {h : Nat} {u : Unit}

/-! ## Where file priorities come from -/

/-- From `t` to `t'` the torrent `h` gets file priorities by the commands of `es` alone. -/
structure Torrent.Follows (h : Nat) (es : List Effect) (t t' : Torrent) : Prop where
  savePath : t'.savePath = t.savePath
  info : ∀ md, t.info = some md → t'.info = some md
  filePriorities : t'.filePriorities = t.filePriorities ∨
    .command h (.prioritizeFiles t'.filePriorities) ∈ es

namespace Torrent

variable {t t' t'' : Torrent} {es es' : List Effect}

theorem Follows.refl (t : Torrent) : t.Follows h es t := ⟨rfl, fun _ hmd => hmd, Or.inl rfl⟩

theorem Follows.trans (ht : t.Follows h es t') (ht' : t'.Follows h es' t'') :
    t.Follows h (es ++ es') t'' where
  savePath := ht'.savePath.trans ht.savePath
  info md hmd := ht'.info md (ht.info md hmd)
  filePriorities := by
    rcases ht'.filePriorities with hsame' | hmem'
    · rw [hsame']
      exact ht.filePriorities.imp_right (List.mem_append_left es')
    · exact Or.inr (List.mem_append_right es hmem')

theorem command_savePath (downloaded : Nat → Bool) (t : Torrent) (c : TorrentCommand) :
    (t.command downloaded c).savePath = t.savePath := by
  unfold command
  split
  all_goals first
    | rfl
    | (split_ifs <;> rfl)

theorem apply_savePath (downloaded : Nat → Bool) (t : Torrent) (c : TorrentCommand) :
    (t.apply downloaded c).savePath = t.savePath := by
  obtain ⟨ps, ds, hsettle⟩ := settle_eq downloaded t
  unfold apply
  split
  · rw [command_savePath, hsettle]
  · exact command_savePath downloaded t c

theorem follows_apply (downloaded : Nat → Bool) (t : Torrent) (c : TorrentCommand) :
    t.Follows h [.command h c] (t.apply downloaded c) := by
  refine ⟨apply_savePath downloaded t c, fun md hmd => by rw [apply_info, hmd], ?_⟩
  cases c with
  | prioritizeFiles ps =>
      rw [filePriorities_prioritizeFiles]
      exact Or.inr (List.mem_singleton.mpr rfl)
  | _ => exact Or.inl (apply_filePriorities trivial)

theorem follows_applyAll (downloaded : Nat → Bool) (t : Torrent) (cs : List TorrentCommand) :
    t.Follows h (cs.map (.command h)) (t.applyAll downloaded cs) := by
  induction cs generalizing t with
  | nil => exact .refl t
  | cons c cs ih => exact (follows_apply downloaded t c).trans (ih (t.apply downloaded c))

end Torrent

/-- Between `s` and `s'` the torrent `h` comes from one with property `P`, by what the streamer
did in between. -/
def Streamer.Traces (P : Torrent → Prop) (h : Nat) (s s' : Streamer) : Prop :=
  ∃ es, s'.effects = s.effects ++ es ∧
    ∀ t', s'.session.find? h = some t' → ∃ t, P t ∧ t.Follows h es t'

/-- Between `s` and `s'` the torrent `h` comes from itself. -/
abbrev Streamer.Follows (h : Nat) (s s' : Streamer) : Prop :=
  s.Traces (fun t => s.session.find? h = some t) h s'

namespace Streamer

variable {P : Torrent → Prop} {s s' s'' : Streamer} {es : List Effect}

theorem Traces.trans (hs : s.Traces P h s') (hs' : s'.Follows h s'') : s.Traces P h s'' := by
  obtain ⟨es, heffects, htorrents⟩ := hs
  obtain ⟨es', heffects', htorrents'⟩ := hs'
  refine ⟨es ++ es', by rw [heffects', heffects, List.append_assoc], fun t'' ht'' => ?_⟩
  obtain ⟨t', ht', hfollows'⟩ := htorrents' t'' ht''
  obtain ⟨t, ht, hfollows⟩ := htorrents t' ht'
  exact ⟨t, ht, hfollows.trans hfollows'⟩

theorem Traces.imp {P' : Torrent → Prop} (hs : s.Traces P h s') (himp : ∀ t, P t → P' t) :
    s.Traces P' h s' := by
  obtain ⟨es, heffects, htorrents⟩ := hs
  refine ⟨es, heffects, fun t' ht' => ?_⟩
  obtain ⟨t, ht, hfollows⟩ := htorrents t' ht'
  exact ⟨t, himp t ht, hfollows⟩

theorem Follows.of_effects (htorrents : s'.session.torrents = s.session.torrents)
    (heffects : s'.effects = s.effects ++ es) : s.Follows h s' := by
  refine ⟨es, heffects, fun t' ht' => ⟨t', ?_, .refl t'⟩⟩
  rwa [Session.find?, ← htorrents]

theorem Follows.of_eq (htorrents : s'.session.torrents = s.session.torrents)
    (heffects : s'.effects = s.effects) : s.Follows h s' :=
  of_effects htorrents (by rw [heffects, List.append_nil])

theorem Follows.refl (s : Streamer) : s.Follows h s := of_eq rfl rfl

theorem Follows.sent (env : Env) (h' : Nat) (cs : List TorrentCommand) (s : Streamer) :
    s.Follows h (s.sent env h' cs) := by
  refine ⟨cs.map (.command h'), rfl, fun t' ht' => ?_⟩
  rw [find?_sent] at ht'
  split at ht'
  · rename_i hh
    subst hh
    obtain ⟨t, ht, rfl⟩ := Option.map_eq_some_iff.mp ht'
    exact ⟨t, ht, t.follows_applyAll (env.downloaded h) cs⟩
  · exact ⟨t', ht', .refl t'⟩

/-- A streamer whose session is empty. -/
theorem Follows.of_empty (htorrents : s'.session.torrents = [])
    (heffects : s'.effects = s.effects ++ es) : s.Follows h s' := by
  refine ⟨es, heffects, fun t' ht' => ?_⟩
  rw [Session.find?, htorrents] at ht'
  cases ht'

end Streamer

/-! ## The methods -/

theorem follows_cancel {deleteData : Bool}
    (hx : cancelStreamingAndDeleteData env deleteData m = .ok u m') :
    m.streamer.Follows h m'.streamer := by
  cases deleteData with
  | true =>
      obtain ⟨-, es, -, hs'⟩ := cancel_deleting_ok hx
      rw [hs']
      refine .of_empty rfl (?_ : _ = _ ++ (es ++ [.cancelled,
        .dispatched (.networkActivityIndicator false)]))
      simp [Streamer.deleted, Streamer.cancelled, Streamer.dispatch, Streamer.log,
        Streamer.reset, Streamer.withSession]
  | false =>
      obtain ⟨-, session, es, -, hs', -, hpaused, -⟩ := cancel_keeping_ok hx
      refine ⟨es ++ [.cancelled, .dispatched (.networkActivityIndicator false)], ?_,
        fun t' ht' => ?_⟩
      · rw [hs']
        simp [Streamer.cancelled, Streamer.dispatch, Streamer.log, Streamer.reset,
          Streamer.withSession]
      · rw [hs'] at ht'
        change session.find? h = some t' at ht'
        rw [Session.find?, hpaused, List.find?_map] at ht'
        obtain ⟨t, ht, rfl⟩ := Option.map_eq_some_iff.mp ht'
        exact ⟨t, ht, rfl, fun _ hmd => hmd, Or.inl rfl⟩

theorem follows_prioritizeNextPieces {h' : Nat} (hx : prioritizeNextPieces env h' m = .ok u m') :
    m.streamer.Follows h m'.streamer := by
  obtain ⟨next, t, ps, -, -, -, -, -, hs'⟩ := prioritizeNextPieces_ok hx
  rw [hs']
  exact (Streamer.Follows.sent env h' _ m.streamer).trans (.of_eq rfl rfl)

theorem follows_selectFile {h' : Nat} (hx : selectFile env h' m = .ok u m') :
    m.streamer.Follows h m'.streamer := by
  obtain ⟨t, md, i, g, es, fe, -, -, -, -, -, hs'⟩ := selectFile_ok hx
  have hlog : m.streamer.Follows h (m.streamer.log es) := .of_effects rfl rfl
  rw [hs']
  exact (hlog.trans (.sent env h' _ _)).trans (.of_eq rfl rfl)

theorem follows_metadataReceivedAlert {h' : Nat}
    (hx : metadataReceivedAlert env h' m = .ok u m') : m.streamer.Follows h m'.streamer := by
  obtain ⟨-, -, ⟨-, m₁, -, hs₁, hcancel⟩ | ⟨-, m₁, -, hs₁, hselect⟩⟩ :=
    metadataReceivedAlert_ok hx
  · have hneeds : m.streamer.Follows h m₁.streamer := by
      rw [hs₁]
      exact .of_effects rfl rfl
    exact hneeds.trans (follows_cancel hcancel)
  · have hneeds : m.streamer.Follows h m₁.streamer := by
      rw [hs₁]
      exact .of_eq rfl rfl
    exact hneeds.trans (follows_selectFile hselect)

theorem follows_pieceFinishedAlert {h' : Nat} (hx : pieceFinishedAlert env h' m = .ok u m') :
    m.streamer.Follows h m'.streamer := by
  obtain ⟨-, n, m₁, -, hs₁, hcases⟩ := pieceFinishedAlert_ok hx
  have hprogress : m.streamer.Follows h m₁.streamer := by
    rw [hs₁]
    exact .of_effects rfl rfl
  rcases hcases with ⟨-, -, hs'⟩ | ⟨-, m₂, hnext, ⟨-, -, hs₂⟩ | ⟨-, m₃, -, hs₃, hmeta⟩⟩
  · rwa [hs']
  · rw [← hs₂] at hprogress
    exact hprogress.trans (follows_prioritizeNextPieces hnext)
  · rw [← hs₃] at hprogress
    exact (hprogress.trans (follows_metadataReceivedAlert hmeta)).trans
      (follows_prioritizeNextPieces hnext)

theorem follows_torrentFinishedAlert {h' : Nat} (hx : torrentFinishedAlert env h' m = .ok u m') :
    m.streamer.Follows h m'.streamer := by
  obtain ⟨-, m₁, hprocess, -, hs'⟩ := torrentFinishedAlert_ok hx
  have hprocess₁ : m.streamer.Follows h m₁.streamer := by
    rcases processTorrent_ok hprocess with ⟨-, rfl⟩ | ⟨-, t, md, fe, i, es, -, -, -, -, hs₁⟩
    · exact .refl _
    · dsimp only at hs₁
      rw [hs₁]
      split
      · exact .of_effects rfl (List.append_assoc _ _ _)
      · exact .of_effects rfl rfl
  rw [hs']
  refine hprocess₁.trans ⟨[.dispatched .progress, .dispatched (.networkActivityIndicator false),
    .command h' (.pause true), .removed h', .finished h'],
    by simp [Streamer.finish, Streamer.progress, Streamer.dispatch], fun t' ht' => ?_⟩
  have hremoved : (m₁.streamer.session.removeTorrent h').find? h = some t' := ht'
  exact ⟨t', find?_of_removeTorrent hremoved, .refl t'⟩

theorem follows_resumeDataReadyAlertWithData {h' : Nat}
    (hx : resumeDataReadyAlertWithData h' m = .ok u m') : m.streamer.Follows h m'.streamer := by
  obtain ⟨-, hs'⟩ := resumeDataReadyAlertWithData_ok hx
  rw [hs']
  exact .of_empty rfl rfl

theorem follows_fastForwardLoop {location length : Nat} {hs : List Nat} {r : Bool}
    (hx : fastForwardLoop env location length hs m = .ok r m') :
    m.streamer.Follows h m'.streamer := by
  induction hs generalizing m with
  | nil =>
      obtain ⟨-, rfl⟩ := pure_eq_ok.mp hx
      exact .refl _
  | cons h' hs ih =>
      obtain ⟨there, m₁, hround, hrest⟩ := bind_eq_ok.mp hx
      have hround₁ : m.streamer.Follows h m₁.streamer := by
        obtain ⟨t, md, i, g, es, last, -, -, -, -, ⟨-, -, hs₁⟩ | ⟨-, m₂, -, hs₂, hnext⟩⟩ :=
          fastForwardTorrent_ok hround
        · rw [hs₁]
          exact .of_effects rfl rfl
        · have hseeks : m.streamer.Follows h m₂.streamer := by
            rw [hs₂]
            exact .of_effects rfl rfl
          exact hseeks.trans (follows_prioritizeNextPieces hnext)
      cases there with
      | true =>
          obtain ⟨-, rfl⟩ := pure_eq_ok.mp hrest
          exact hround₁
      | false => exact hround₁.trans (ih hrest)

theorem follows_metadataArrives (h' : Nat) (md : Metadata) (s : Streamer) :
    s.Follows h (s.mapSession (·.metadataArrives h' md)) := by
  rcases s.session.metadataArrives_cases h' md with hsame | ⟨t, ht, hnone, hnew⟩
  · exact .of_eq (by rw [Streamer.mapSession, hsame]) rfl
  refine ⟨[], (List.append_nil _).symm, fun t' ht' => ?_⟩
  have hupdate := Session.find?_update s.session h' h (·.withMetadata md) fun _ => rfl
  rw [Streamer.mapSession, hnew] at ht'
  change (s.session.update h' _).find? h = some t' at ht'
  rw [hupdate] at ht'
  split at ht'
  · rename_i hh
    subst hh
    rw [ht] at ht'
    obtain rfl := Option.some.inj ht'
    exact ⟨t, ht, rfl, fun md' hmd' => absurd (hnone.symm.trans hmd') (by simp), Or.inl rfl⟩
  · exact ⟨t', ht', .refl t'⟩

theorem follows_move {move : Move} (hx : move.perform m = .ok u m') :
    m.streamer.Follows h m'.streamer := by
  cases move with
  | alert env a =>
      simp only [Move.perform, dispatchAlert_apply] at hx
      split at hx
      · let m₁ : Machine := { m with streamer := m.streamer.delivers a }
        have hdelivers : m.streamer.Follows h m₁.streamer := .of_eq rfl rfl
        have hx₁ : handleAlert env a m₁ = .ok u m' := hx
        refine hdelivers.trans ?_
        cases a with
        | metadataReceived h' => exact follows_metadataReceivedAlert hx₁
        | pieceFinished h' piece => exact follows_pieceFinishedAlert hx₁
        | torrentFinished h' => exact follows_torrentFinishedAlert hx₁
        | saveResumeData h' =>
            obtain ⟨st, m₂, hstatus, hsave⟩ := bind_eq_ok.mp hx₁
            obtain ⟨-, -, rfl⟩ := statusOf_eq_ok.mp hstatus
            exact follows_resumeDataReadyAlertWithData hsave
      · cases hx
        exact .refl _
  | cancel env deleteData => exact follows_cancel hx
  | fastForward env location length =>
      obtain ⟨r, hloop⟩ := fastForward_ok hx
      exact follows_fastForwardLoop hloop
  | mainQueue =>
      obtain ⟨-, ⟨-, hs'⟩ | ⟨b, rest, -, hs'⟩⟩ := runMainQueue_ok hx
      · rw [hs']
        exact .refl _
      · rw [hs']
        exact .of_effects rfl rfl
  | metadataArrives h' md =>
      simp only [Move.perform, modifies_eq_ok] at hx
      rw [hx]
      exact follows_metadataArrives h' md m.streamer

/-! ## The start -/

section Start

variable {e : Event} {m₀ : Machine}

/-- The torrent with which a start begins its run: one that the session holds, or one that is new
in the folder `path?`. -/
def Session.Begins (session : Session) (path? : Option Text) (h : Nat) (t : Torrent) : Prop :=
  session.find? h = some t ∨ (path? = some t.savePath ∧ t.filePriorities = [])

theorem follows_failStart {failure : Option BlockId} {error : NSError}
    (hx : failStart env failure error m = .ok u m') : m.streamer.Follows h m'.streamer := by
  obtain ⟨m₁, -, hs₁, hcancel⟩ := failStart_ok hx
  have hfailure : m.streamer.Follows h m₁.streamer := by
    rw [hs₁]
    exact .of_effects rfl rfl
  exact hfailure.trans (follows_cancel hcancel)

theorem Loads.follows {arg md5 : Text} {tp : AddTorrentParams}
    (hloads : Loads env arg m m' (tp, md5)) : m.streamer.Follows h m'.streamer := by
  cases hloads with
  | magnet _ _ _ hm => rw [hm]; exact .refl _
  | file md i fe g es _ _ _ _ _ _ hs => rw [hs]; exact .of_effects rfl rfl

theorem Adds.traces {tp : AddTorrentParams} {s s₁ : Streamer} {h' : Nat} (hs : s.Sound)
    (hadds : Adds tp s h' s₁) : s.Traces (s.session.Begins (some tp.savePath) h) h s₁ := by
  obtain ⟨-, -, e', heffects, -⟩ := hadds.beside
  refine ⟨[e'], heffects, fun t ht => ⟨t, ?_, .refl t⟩⟩
  rcases hadds.mem (Session.find?_mem ht) with hmem | ⟨-, rfl⟩
  · left
    rw [← Session.find?_handle ht]
    exact hs.find?_of_mem hmem
  · right
    refine ⟨?_, tp.torrent_filePriorities h'⟩
    unfold AddTorrentParams.torrent
    cases tp.info <;> rfl

theorem traces_addAndResume {arg : Text} {failure : Option BlockId} {tp : AddTorrentParams}
    (hsound : m.streamer.Sound) (hx : addAndResume env arg failure tp m = .ok u m') :
    m.streamer.Traces (m.streamer.session.Begins (some tp.savePath) h) h m'.streamer := by
  obtain ⟨h', s₁, m₂, m₃, hadds, -, -, hs₂, hmeta, -, hs'⟩ := addAndResume_ok hx
  have hcommands : s₁.Follows h m₂.streamer := by
    rw [hs₂]
    exact .sent env h' addCommands s₁
  have hmetadata : m₂.streamer.Follows h m₃.streamer := by
    rcases hmeta with ⟨-, rfl⟩ | ⟨-, hmeta⟩
    · exact .refl _
    · exact follows_metadataReceivedAlert hmeta
  have hresumes : m₃.streamer.Follows h m'.streamer := by
    rw [hs']
    exact .of_effects rfl rfl
  exact (((hadds.traces hsound).trans hcommands).trans hmetadata).trans hresumes

theorem traces_startStreaming {arg : Text} {progress readyToPlay failure : Option BlockId}
    (hreads : e.reads? = some (env, arg)) (hsound : m.streamer.Sound)
    (hx : startStreamingFromFileInDirectory env arg none progress readyToPlay failure m
      = .ok u m') :
    m.streamer.Traces (m.streamer.session.Begins e.folder h) h m'.streamer := by
  have hacquire : m.streamer.Follows h (m.streamer.acquire progress readyToPlay failure) :=
    .of_eq rfl rfl
  rcases startStreamingFromFileInDirectory_ok hx with ⟨-, -, error, hfail⟩ |
    ⟨tp, md5, m₁, hloads, -, error, path?, m₂, -, hs₂, -, hfail⟩ |
    ⟨tp, md5, m₁, hloads, path, m₂, hopened, -, hs₂, hadd⟩
  · have hfailed := follows_failStart (h := h) hfail
    exact (hacquire.trans hfailed).imp fun t ht => Or.inl ht
  · have hopens : m₁.streamer.Follows h m₂.streamer := by
      rw [hs₂]
      exact .of_eq rfl rfl
    exact (((hacquire.trans hloads.follows).trans hopens).trans (follows_failStart hfail)).imp
      fun t ht => Or.inl ht
  · -- the session is the one before until `add_torrent` is called
    have hsession : m₂.streamer.session = m.streamer.session := by
      rw [hs₂]
      exact hloads.session
    have hfolder : e.folder = some (finalParams env arg path tp).savePath := by
      rw [Event.folder, hreads, Option.bind_some]
      dsimp only
      rw [hloads.addParams?, hopened]
      rfl
    have hloaded : m.streamer.Follows h m₂.streamer := by
      rw [hs₂]
      exact (hacquire.trans hloads.follows).trans (.of_eq rfl rfl)
    have hadded := traces_addAndResume (h := h)
      (hsound.of_session hsession (by rw [hs₂]; rfl)) hadd
    rw [hsession, ← hfolder] at hadded
    obtain ⟨es, heffects, -⟩ := hloaded
    obtain ⟨es', heffects', htorrents'⟩ := hadded
    refine ⟨es ++ es', by rw [heffects', heffects, List.append_assoc], fun t' ht' => ?_⟩
    obtain ⟨t, ht, hfollows⟩ := htorrents' t' ht'
    exact ⟨t, ht, (Torrent.Follows.refl t).trans hfollows⟩

/-- **Where the run's torrent comes from**, when its start is over. -/
theorem traces_start (he : e.IsStart) (hsound : m.streamer.Sound) (hx : step e m = .ok u m') :
    m.streamer.Traces (m.streamer.session.Begins e.folder h) h m'.streamer := by
  cases e with
  | start env arg progress readyToPlay failure => exact traces_startStreaming rfl hsound hx
  | startMulti env arg progress readyToPlay failure callback =>
      obtain ⟨_, m₁, h₁, hx⟩ := bind_eq_ok.mp hx
      obtain ⟨_, m₂, h₂, hx⟩ := bind_eq_ok.mp hx
      rw [setShouldUserSelectFiles_eq_ok] at h₁
      rw [modifies_eq_ok] at h₂
      have hs₂ : m₂.streamer = { m.streamer with selectionBlock := some callback } := by
        rw [h₂, h₁]
      have htraces := traces_startStreaming (h := h)
        (e := .startMulti env arg progress readyToPlay failure callback) rfl
        (hsound.of_eq (by rw [hs₂]) (by rw [hs₂])) hx
      rwa [hs₂] at htraces
  | cancel | alertsLoop | fastForward | mainQueue | metadataArrives => exact he.elim

/-- In every state of a run the file priorities of its torrent are those it had before, or those
of a command of the run. -/
theorem traces_of_since {C : Machine → Move → Prop} {seen : Option Torrent} (he : e.IsStart)
    (hsound : m₀.streamer.Sound) (hm : Since C m₀ e h m seen) :
    m₀.streamer.Traces (m₀.streamer.session.Begins e.folder h) h m.streamer := by
  induction hm with
  | started hx hh => exact traces_start he hsound hx
  | moved hm hc hx ih => exact ih.trans (follows_move hx)

end Start

/-! ## The announcement of the chosen file -/

section Announcement

variable {e : Event} {m₀ : Machine} {seen : Option Torrent} {L : List Effect}

/-- A torrent that a start may find in the session: it is in the folder of the run, and downloads
the run's file. -/
def Torrent.Serves (e : Event) (t : Torrent) : Prop :=
  e.folder = some t.savePath ∧ (t.filePriorities = [] ∨ ∃ md, t.info = some md ∧
    t.filePriorities[(e.fileOf md.val).toNat]? ≠ some prioritySkip)

theorem onlyFile_fileOf_ne (hanswers : e.Answers) (md : Metadata) :
    (onlyFile md.val.numFiles (e.fileOf md.val))[(e.fileOf md.val).toNat]? ≠
      some prioritySkip := by
  obtain ⟨fe, hfe⟩ := e.fileAt_fileOf hanswers md
  have hlt := TorrentInfo.lt_numFiles_of_fileAt hfe
  rw [onlyFile, List.getElem?_set_self (by rwa [List.length_replicate])]
  decide

/-- What begins a run, and what its commands make of it, downloads the run's file. -/
theorem Torrent.Follows.serves {t t' : Torrent} {md : Metadata} (hfollows : t.Follows h L t')
    (ht : t.Serves e) (hmd : t'.info = some md) (hanswers : e.Answers)
    (hL : ∀ ps, .command h (.prioritizeFiles ps) ∈ L →
      ps = onlyFile md.val.numFiles (e.fileOf md.val)) :
    e.folder = some t'.savePath ∧
      t'.filePriorityList[(e.fileOf md.val).toNat]? ≠ some prioritySkip := by
  obtain ⟨hfolder, hserves⟩ := ht
  refine ⟨by rw [hfolder, hfollows.savePath], ?_⟩
  -- its priorities are those it began with, or those of a prioritize_files of the run
  have hwanted : t'.filePriorities[(e.fileOf md.val).toNat]? ≠ some prioritySkip := by
    rcases hfollows.filePriorities with hsame | hmem
    · rw [hsame]
      rcases hserves with hnil | ⟨md', hmd', hwanted⟩
      · rw [hnil]
        simp
      · obtain rfl := Option.some.inj ((hfollows.info md' hmd').symm.trans hmd)
        exact hwanted
    · rw [hL _ hmem]
      exact onlyFile_fileOf_ne hanswers md
  rw [filePriorityList, hmd, List.getElem?_map]
  intro hskip
  obtain ⟨i, hi, hdefault⟩ := Option.map_eq_some_iff.mp hskip
  obtain ⟨hlt, rfl⟩ := List.getElem?_eq_some_iff.mp hi
  rw [List.getElem_range] at hdefault
  cases hpriority : t'.filePriorities[(e.fileOf md.val).toNat]? with
  | none =>
      rw [hpriority] at hdefault
      cases hdefault
  | some priority =>
      rw [hpriority] at hdefault hwanted
      exact hwanted (congrArg some hdefault)

/-- A torrent that finishes while the run waits for one is the run's, and names the file. -/
theorem finishesOwn_of_running {md? : Option Metadata} {move : Move} (hanswers : e.Answers)
    (hserves : ∀ t, m₀.streamer.session.find? h = some t → t.Serves e)
    (hrun : Running e h m₀ md? L m)
    (htraces : m₀.streamer.Traces (m₀.streamer.session.Begins e.folder h) h m.streamer)
    (hc : move.KeepsChoice e m₀ h m) (hx : move.perform m = .ok u m') :
    move.FinishesOwn h m := by
  unfold Move.FinishesOwn
  split
  swap
  · trivial
  rename_i env h'
  intro hcan hstreaming hblock
  have hreports := hc hcan hstreaming
  split at hreports
  swap
  · rw [hreports.1] at hblock
    cases hblock
  rename_i hh
  subst hh
  refine ⟨rfl, ?_⟩
  simp only [Move.perform, dispatchAlert_apply, if_pos hcan] at hx
  let m₁ : Machine := { m with streamer := m.streamer.delivers (.torrentFinished h') }
  have hx₁ : torrentFinishedAlert env h' m₁ = .ok u m' := hx
  -- the alert has a torrent with metadata, and chooses a file
  obtain ⟨-, m₂, hprocess, -, -⟩ := torrentFinishedAlert_ok hx₁
  rcases processTorrent_ok hprocess with ⟨htrue, -⟩ |
    ⟨-, t, md, fe, i, es, ht, hmd, hfe, hchooses, -⟩
  · exact absurd (hstreaming.symm.trans htrue) Bool.false_ne_true
  replace ht : m.streamer.session.find? h' = some t := ht
  obtain ⟨hmd?, hpath⟩ := hrun.torrents t ht
  obtain rfl : md? = some md := hmd?.trans hmd
  have hoverwritten := hreports md (metadata?_of_find? ht hmd)
  rw [hrun.did] at hoverwritten
  obtain ⟨rfl, -, -⟩ := hrun.standing.chooses hoverwritten hchooses
  -- its file priorities are those of the run's file
  obtain ⟨L', heffects, htorrents⟩ := htraces
  obtain rfl : L = L' := List.append_cancel_left (hrun.effects.symm.trans heffects)
  obtain ⟨t₀, ht₀, hfollows⟩ := htorrents t ht
  have hbegins : t₀.Serves e := by
    rcases ht₀ with hfind | ⟨hfolder, hnil⟩
    · exact hserves t₀ hfind
    · exact ⟨hfolder, Or.inl hnil⟩
  obtain ⟨hfolder, hwanted⟩ := hfollows.serves hbegins hmd hanswers fun ps hmem =>
    hrun.kept.uses md (fun md' hmd' => (Option.some.inj hmd').symm) _ hmem rfl
  exact ⟨t, ht, md, hmd, e.fileOf md.val, hchooses.fileIndex, fe, hfe, hpath.trans hfolder,
    hwanted⟩

/-- The condition of a move of a run, up to a cancel. -/
def ChoosesUntilCancel (e : Event) (m₀ : Machine) (h : Nat) (m : Machine) (move : Move) : Prop :=
  .cancelled ∉ m₀.did m → move.KeepsChoice e m₀ h m

/-- A run that is not cancelled keeps to its file. -/
theorem running_of_since (he : e.IsStart) (hsound : m₀.streamer.Sound) (hanew : e.StartsAnew m₀)
    (hm : Since (ChoosesUntilCancel e m₀ h) m₀ e h m seen) :
    (∃ L, Running e h m₀ (seen.bind (·.info)) L m) ∨ .cancelled ∈ m₀.did m := by
  induction hm with
  | started hx hh =>
      exact (stands_start he hsound hanew hx hh).imp_right Stopped.cancelled
  | moved hm hc hx ih =>
      rcases ih with ⟨L, hrun⟩ | hcancelled
      · have hgoes := hrun.goes
        rw [← hrun.did] at hgoes
        exact (stands_move hrun hanew.1 (hc hgoes) hx).imp_right Stopped.cancelled
      · -- what was done stays done
        obtain ⟨es, heffects, -⟩ := follows_move (h := h) hx
        rw [Machine.did, heffects]
        exact Or.inr (((List.sublist_append_left _ es).drop _).subset hcancelled)

theorem Phase.mute_of_cancelled {block : Option BlockId} {s : Streamer}
    (hphase : Phase block h seen L s) (hcancelled : .cancelled ∈ L) :
    s.readyToPlayBlock = none := by
  cases hphase with
  | waiting b hblock hnow hstreaming hreadies hL => exact (hL _ hcancelled).elim
  | queued b path hblock hnow hstreaming hreadies hL hended =>
      exact absurd rfl (hL _ hcancelled).2
  | told b path hblock hstreaming hreadies hcalls hgoes hended => exact absurd hcancelled hgoes
  | mute hnow => exact hnow

/-- **The completion of a run with one chosen file is announced once**: after a start that meets
the condition of `oneFile_of_startsAnew` in a state in which nothing streams and nothing is about
to be announced, where the torrent is new or downloads the run's file, in every run whose moves
meet the condition of that theorem up to a cancel. -/
theorem announcesOnce_of_startsAnew (he : e.IsStart) (hm₀ : Reachable m₀)
    (hunannounced : m₀.Unannounced) (hanew : e.StartsAnew m₀)
    (hserves : ∀ t, m₀.streamer.session.find? h = some t → t.Serves e)
    (hm : Since (ChoosesUntilCancel e m₀ h) m₀ e h m seen) :
    AnnouncesOnce e.readyToPlay h seen (m₀.did m) m := by
  have hsound := hm₀.sound
  have hleads : Leads e.readyToPlay h seen [] m₀.streamer m.streamer := by
    induction hm with
    | started hx hh => exact leads_of_isStart he hunannounced hx
    | @moved m m' seen move hm hc hx ih =>
        obtain ⟨L, hL, hphase⟩ := ih
        rw [List.nil_append] at hphase
        have hown : move.FinishesOwn h m := by
          rcases running_of_since he hsound hanew hm with ⟨L', hrun⟩ | hcancelled
          · have hgoes := hrun.goes
            rw [← hrun.did] at hgoes
            exact finishesOwn_of_running hanew.1 hserves hrun (traces_of_since he hsound hm)
              (hc hgoes) hx
          · -- nobody waits for the torrent of a run that was cancelled
            rw [Machine.did, hL, List.drop_left] at hcancelled
            have hmute := hphase.mute_of_cancelled hcancelled
            unfold Move.FinishesOwn
            split
            · intro _ _ hblock
              rw [hmute] at hblock
              cases hblock
            · trivial
        obtain ⟨es, hes, hphase'⟩ := leads_move hphase (fun t ht => hm.seen ht) hown hx
        exact ⟨L ++ es, by rw [hes, hL, List.append_assoc], hphase'⟩
  obtain ⟨L, hL, hphase⟩ := hleads
  rw [List.nil_append] at hphase
  rw [Machine.did, hL, List.drop_left]
  exact hphase.announcesOnce

end Announcement

end BtDownloader
